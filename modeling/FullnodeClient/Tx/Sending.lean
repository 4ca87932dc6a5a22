import FullnodeClient.Handlers.StateBlocks
import FullnodeClient.Rpc.Upstream
import FullnodeClient.Tx.Amounts

/-!
# Sending a transaction

`send-tx` from the request to its answer: `send_tx_handler`, which may have to ask for the balance first and then
goes on in a callback, and `send_tx_handler_sync`. The transaction is built and signed here and sent on as
`mhc_send`.
-/

namespace FullnodeClient.Tx
open FullnodeClient.Lib FullnodeClient.Text FullnodeClient.Rpc
open FullnodeClient.Net (Client)

/-- The members of the handler that `make_json` writes. -/
structure Message where
  transaction : Bytes
  toAddr : Bytes
  value : Nat
  fee : Nat
  nonce : Nat
  data : Bytes
  pubKey : Bytes
  sign : Bytes
  hash : Bytes

def Message.params (m : Message) : List (Bytes × Bytes) :=
  [(text "transaction", cStr m.transaction), (text "to", cStr m.toAddr), (text "value", decimal m.value),
    (text "fee", if m.fee = 0 then [] else decimal m.fee), (text "nonce", decimal m.nonce),
    (text "data", cStr m.data), (text "pubkey", m.pubKey), (text "sign", m.sign)] ++
    if m.hash = [] then [] else [(text "hash", m.hash)]

def makeJson (m : Message) (writer : Json) : Json :=
  m.params.foldl (fun writer param => Writer.addParam param.1 (.str param.2) writer)
    (Writer.setMethod (text "mhc_send") (Writer.reset writer))

def Message.ofBuilt (tx : Checked) (nonce : Nat) (built : Built) : Message :=
  ⟨built.transaction, tx.toAddr, tx.value, built.fee, nonce, Common.toHex tx.data, tx.keys.pubKey, built.sign, built.hash⟩

def Message.ofRaw (keys : Keys) (transaction : Bytes) (r : RawSend) : Message :=
  ⟨transaction, r.toAddr, r.value, r.fee, r.nonce, r.data, keys.pubKey, r.sign, r.hash⟩

/-- What `prepare_params` or `on_get_balance` leads to. -/
inductive Preparation
  | undefined
  | refused (thrown : Thrown)
  | forwarded (error : Json)
  | built (m : Message)
  | asks (tx : Checked)

namespace Preparation

def ofOutcome : Outcome → Preparation
  | .refused thrown => refused thrown
  | .forwarded error => forwarded error
  | .accepted tx nonce made => built (.ofBuilt tx nonce made)
  -- `raw` is no outcome of the functions that are used here.
  | .undefined | .raw _ => undefined

def ofRaw (keys : Keys) (transaction : Bytes) : RawOutcome → Preparation
  | .undefined => undefined
  | .refused thrown => refused thrown
  | .made r => built (.ofRaw keys transaction r)

end Preparation

def prepareParams (node : Node) (doc : Json) (id : Nat) : Preparation :=
  orRefuse .refused (check (id ≠ 0) (invalidRequest "id field not found")) fun _ =>
    orRefuse .refused (require (doc.get (text "params")) (invalidRequest "params field not found")) fun params =>
      let transaction := getString params "transaction"
      if transaction ≠ [] then
        orRefuse .refused (checkRaw node params) fun keys =>
          .ofRaw keys transaction (prepareTransaction node.crypto keys transaction node.beyond)
      else
        orRefuse .refused (checkParams node doc id) fun tx =>
          match nonceField doc with
          | some jValue =>
              orRefuse .refused (amount jValue "'nonce' field has incorrect format") fun nonce =>
                .ofOutcome (buildRequest node true tx nonce)
          | none => if node.useLocalDatabase then .ofOutcome (fromDatabase node tx) else .asks tx

def prepareParamsSync (node : Node) (doc : Json) (id : Nat) : Preparation := .ofOutcome (sendTxSync node doc id)

/-- `send_tx_handler::process_response`. The hash of the transaction comes in `params`. -/
def processResponse (doc writer : Json) : Option Json :=
  match doc.get (text "error"), doc.get (text "params") with
  | some error, _ => some (Writer.setErrorValue error writer)
  | none, none => some (endTry writer (invalidParam "send-tx response: params field not found"))
  | none, some (.str s) => some (Writer.setResult (.str s) writer)
  | none, some _ => some (endTry writer (invalidParam "send-tx response: params field has incorrect format"))

/-- `send_tx_handler_sync::process_response`, which looks into `params` without a check. -/
def processResponseSync (doc writer : Json) : Option Json :=
  match doc.get (text "error"), doc.get (text "params") with
  | some error, _ => some (Writer.setErrorValue error writer)
  | none, none => none
  | none, some (.str s) => some (Writer.setResult (.str s) writer)
  | none, some _ => some (endTry writer (invalidParam "params field not found"))

structure Hosts where
  proxy : Client
  tor : Client

def balanceRequest (address : Bytes) : Json :=
  Writer.addParam (text "address") (.str address) (Writer.setId 1 Writer.initial)

def proceed (wire : Wire) (relay : Relay) (method : Option Bytes) (writer : Json) (ask : Checked → Flow) :
    Preparation → Flow
  | .undefined => .undefined
  | .refused thrown => .reply (endTry writer thrown)
  | .forwarded error => .reply (Writer.setErrorValue error (Writer.reset writer))
  | .built m => relay.execute wire method (makeJson m writer)
  | .asks tx => ask tx

def askBalance (wire : Wire) (hosts : Hosts) (node : Node) (method : Option Bytes) (writer : Json) (tx : Checked) :
    Flow :=
  .ask hosts.tor (text "/fetch-balance") (balanceRequest tx.address) fun result =>
    proceed wire ⟨hosts.proxy, processResponse⟩ method writer (fun _ => .undefined)
      (.ofOutcome (onGetBalance node tx (wire.parse (wire.stringify result))))

/-- `perform` with the handler of `send-tx` from the table of `task_handlers.cpp`. -/
def performSend (wire : Wire) (hosts : Hosts) (node : Node) (params : Bytes) : Flow :=
  match Handlers.accept wire.toBackend params with
  | .error refusal => .reply refusal
  | .ok (doc, id) =>
      let method := Reader.getMethod doc
      let writer := Writer.setId id Writer.initial
      if node.useLocalDatabase then
        proceed wire ⟨hosts.proxy, processResponseSync⟩ method writer (fun _ => .undefined) (prepareParamsSync node doc id)
      else
        proceed wire ⟨hosts.proxy, processResponse⟩ method writer (askBalance wire hosts node method writer)
          (prepareParams node doc id)

/-! ## What is signed -/

def Message.Signed (crypto : CryptoLib) (prvKey : Bytes) (m : Message) : Prop :=
  ∃ receiver data sign, formatHex m.toAddr = some receiver ∧ formatHex m.data = some data ∧
    let layout := receiver ++ writeCompactInt m.value ++ writeCompactInt m.fee ++ writeCompactInt m.nonce ++
      writeCompactInt data.length ++ data
    crypto.sign prvKey layout = some sign ∧ Crypto.bin2hex layout = some m.transaction ∧
      Crypto.bin2hex sign = some m.sign

section
variable {node : Node} {doc : Json} {id : Nat} {tx : Checked} {nonce : Nat} {made : Built}

theorem genSign_eq_some {crypto : CryptoLib} {prvKey : Bytes} {fmt : String} {args : List Arg} {transaction sign : Bytes}
    (signed : genSign crypto prvKey fmt args = some (some (transaction, sign))) :
    ∃ data bin, format fmt.toList args [] = some data ∧ crypto.sign prvKey data = some bin ∧
      Crypto.bin2hex data = some transaction ∧ Crypto.bin2hex bin = some sign := by
  obtain ⟨data, formatted, signed⟩ := Option.bind_eq_some_iff.mp signed
  split at signed
  case isTrue => cases signed
  case isFalse =>
    obtain ⟨made, ended, signed⟩ := Option.bind_eq_some_iff.mp signed
    cases made with
    | none => cases signed
    | some bin =>
        obtain ⟨result, hexSign, signed⟩ := Option.bind_eq_some_iff.mp signed
        obtain ⟨transaction, hexData, signed⟩ := Option.bind_eq_some_iff.mp signed
        cases signed
        simp only [signData_eq (length_of_crypto_bin2hex hexData), Option.ite_none_right_eq_some,
          Option.some.injEq] at ended
        exact ⟨data, bin, formatted, ended.2, hexData, hexSign⟩

theorem format_fee (toAddr : Bytes) (value fee nonce : Nat) (data : Bytes) :
    format "xUUUux".toList (requestArgs toAddr value fee nonce data) [] =
      format "xUUUux".toList (requestArgs toAddr value (fee % 2 ^ 64) nonce data) [] := by
  have chars : "xUUUux".toList = ['x', 'U', 'U', 'U', 'u', 'x'] := rfl
  simp only [chars, requestArgs, format, Nat.mod_mod]

theorem format_request_eq_some {toAddr data layout : Bytes} {value fee nonce : Nat} (hv : value < 2 ^ 64)
    (hf : data.length < 2 ^ 31 → fee < 2 ^ 64) (hn : nonce < 2 ^ 64)
    (formatted : format "xUUUux".toList (requestArgs toAddr value fee nonce data) [] = some layout) :
    ∃ receiver, formatHex toAddr = some receiver ∧ data.length < 2 ^ 31 ∧
      layout = receiver ++ writeCompactInt value ++ writeCompactInt fee ++ writeCompactInt nonce ++
        writeCompactInt data.length ++ data := by
  rw [format_fee, format_request toAddr hv (Nat.mod_lt _ (by norm_num)) hn] at formatted
  obtain ⟨receiver, found, formatted⟩ := Option.bind_eq_some_iff.mp formatted
  simp only [Option.ite_none_right_eq_some, Option.some.injEq] at formatted
  obtain ⟨small, rfl⟩ := formatted
  have wide : data.length < 2 ^ 32 := by omega
  rw [Nat.mod_eq_of_lt (hf small), Nat.mod_eq_of_lt wide]
  exact ⟨receiver, found, small, rfl⟩

theorem checkParams_lt (checked : checkParams node doc id = .ok tx) : tx.value < 2 ^ 64 ∧ tx.fee < 2 ^ 64 := by
  obtain ⟨params, j, -, -, value, fee⟩ := checkParams_eq_ok checked
  obtain ⟨tmp, -, read⟩ := Option.bind_eq_some_iff.mp value
  refine ⟨stoull_lt read, ?_⟩
  unfold feeOf at fee
  split at fee
  case h_1 => exact stoull_lt (require_eq_ok.mp fee)
  case h_2 =>
    rw [← Except.ok.inj fee]
    norm_num

theorem buildRequest_signed (checked : checkParams node doc id = .ok tx) {createHash : Bool} (small : nonce < 2 ^ 64)
    (accepted : buildRequest node createHash tx nonce = .accepted tx nonce made) :
    (Message.ofBuilt tx nonce made).Signed node.crypto tx.keys.prvKey ∧
      made.fee = if tx.fee = 0 then tx.data.length else tx.fee := by
  obtain ⟨hv, hf⟩ := checkParams_lt checked
  have fee : tx.data.length < 2 ^ 31 → (if tx.fee = 0 then tx.data.length else tx.fee) < 2 ^ 64 := by
    intro short
    split <;> omega
  unfold buildRequest at accepted
  dsimp only at accepted
  split at accepted
  case h_1 => cases accepted
  case h_2 => cases accepted
  case h_3 transaction sign signed =>
    obtain ⟨layout, bin, formatted, made', hexLayout, hexSign⟩ := genSign_eq_some signed
    obtain ⟨receiver, found, short, rfl⟩ := format_request_eq_some hv fee small formatted
    have data : formatHex (Common.toHex tx.data) = some tx.data := by rw [formatHex_toHex, if_pos short]
    have signs (hash : Bytes) : (Message.ofBuilt tx nonce
        ⟨if tx.fee = 0 then tx.data.length else tx.fee, transaction, sign, hash⟩).Signed node.crypto tx.keys.prvKey :=
      ⟨receiver, tx.data, bin, found, data, made', hexLayout, hexSign⟩
    split at accepted
    case isTrue =>
      split at accepted
      case h_1 => cases accepted
      case h_2 => cases accepted
      case h_3 =>
        cases accepted
        exact ⟨signs _, rfl⟩
    case isFalse =>
      cases accepted
      exact ⟨signs _, rfl⟩

inductive NonceOf (wire : Wire) (hosts : Hosts) (node : Node) (doc : Json) (address : Bytes) : Nat → Prop
  | given {j : Json} {nonce : Nat} (field : nonceField doc = some j) (read : (val2str j).bind stoull = some nonce) :
      NonceOf wire hosts node doc address nonce
  | database {countSpent : Bytes → UInt64} (field : nonceField doc = none) (sync : node.sync = some countSpent) :
      NonceOf wire hosts node doc address (afterSpent (countSpent address).toNat)
  | balance {body : Bytes} {sent reply result : Json} {countSpent : Nat} (field : nonceField doc = none)
      (parsed : hosts.tor.parse body = some sent) (read : wire.parse (wire.stringify sent) = .ok reply)
      (clean : reply.get (text "error") = none) (found : reply.get (text "result") = some result)
      (count : (result.get (text "count_spent")).bind Reader.uint64 = some countSpent) :
      NonceOf wire hosts node doc address (afterSpent countSpent)

inductive Origin (wire : Wire) (hosts : Hosts) (node : Node) (doc : Json) (id : Nat) : Message → Prop
  | raw {params : Json} {keys : Keys} {r : RawSend} (here : doc.get (text "params") = some params)
      (checked : checkRaw node params = .ok keys)
      (prepared : prepareRaw node.crypto keys (getString params "transaction") node.beyond = some r) :
      Origin wire hosts node doc id (.ofRaw keys (getString params "transaction") r)
  | built {tx : Checked} {nonce : Nat} {made : Built} (checked : checkParams node doc id = .ok tx)
      (nonces : NonceOf wire hosts node doc tx.address nonce)
      (fee : made.fee = if tx.fee = 0 then tx.data.length else tx.fee)
      (signed : (Message.ofBuilt tx nonce made).Signed node.crypto tx.keys.prvKey) :
      Origin wire hosts node doc id (.ofBuilt tx nonce made)

theorem NonceOf.lt {wire : Wire} {hosts : Hosts} {address : Bytes} (nonces : NonceOf wire hosts node doc address nonce) :
    nonce < 2 ^ 64 := by
  cases nonces with
  | given field read =>
      obtain ⟨tmp, -, read⟩ := Option.bind_eq_some_iff.mp read
      exact stoull_lt read
  | database | balance => exact Nat.mod_lt _ (by norm_num)

variable {wire : Wire} {hosts : Hosts} {m : Message}

theorem Preparation.orRefuse_eq_built {α : Type} {x : Except Thrown α} {next : α → Preparation} :
    orRefuse .refused x next = .built m ↔ ∃ a, x = .ok a ∧ next a = .built m :=
  orRefuse_eq_iff nofun

theorem Preparation.orRefuse_eq_asks {α : Type} {x : Except Thrown α} {next : α → Preparation} :
    orRefuse .refused x next = .asks tx ↔ ∃ a, x = .ok a ∧ next a = .asks tx :=
  orRefuse_eq_iff nofun

theorem Preparation.ofOutcome_eq_built {outcome : Outcome} :
    Preparation.ofOutcome outcome = .built m ↔
      ∃ tx nonce made, outcome = .accepted tx nonce made ∧ m = .ofBuilt tx nonce made := by
  cases outcome <;> simp [Preparation.ofOutcome, eq_comm]

theorem Preparation.ofRaw_eq_built {keys : Keys} {transaction : Bytes} {outcome : RawOutcome} :
    Preparation.ofRaw keys transaction outcome = .built m ↔
      ∃ r, outcome = .made r ∧ m = .ofRaw keys transaction r := by
  cases outcome <;> simp [Preparation.ofRaw, eq_comm]

theorem Preparation.ofOutcome_ne_asks (outcome : Outcome) : Preparation.ofOutcome outcome ≠ .asks tx := by
  cases outcome <;> simp [Preparation.ofOutcome]

theorem Preparation.ofRaw_ne_asks {keys : Keys} {transaction : Bytes} (outcome : RawOutcome) :
    Preparation.ofRaw keys transaction outcome ≠ .asks tx := by
  cases outcome <;> simp [Preparation.ofRaw]

theorem Origin.of_buildRequest (checked : checkParams node doc id = .ok tx)
    (nonces : NonceOf wire hosts node doc tx.address nonce)
    (made : Preparation.ofOutcome (buildRequest node true tx nonce) = .built m) : Origin wire hosts node doc id m := by
  obtain ⟨tx', nonce', made, accepted, rfl⟩ := Preparation.ofOutcome_eq_built.mp made
  obtain ⟨rfl, rfl⟩ := buildRequest_accepted accepted
  obtain ⟨signed, fee⟩ := buildRequest_signed checked nonces.lt accepted
  exact .built checked nonces fee signed

theorem Origin.of_database (checked : checkParams node doc id = .ok tx) (field : nonceField doc = none)
    (made : Preparation.ofOutcome (fromDatabase node tx) = .built m) : Origin wire hosts node doc id m := by
  obtain ⟨tx', nonce, built, accepted, same⟩ := Preparation.ofOutcome_eq_built.mp made
  obtain ⟨countSpent, sync, accepted'⟩ := orRefuse_eq_accepted.mp accepted
  refine .of_buildRequest checked (.database field (require_eq_ok.mp sync)) ?_
  exact Preparation.ofOutcome_eq_built.mpr ⟨tx', nonce, built, accepted', same⟩

theorem prepareParams_built (made : prepareParams node doc id = .built m) : Origin wire hosts node doc id m := by
  obtain ⟨-, -, made⟩ := Preparation.orRefuse_eq_built.mp made
  obtain ⟨params, here, made⟩ := Preparation.orRefuse_eq_built.mp made
  dsimp only at made
  split at made
  case isTrue =>
    obtain ⟨keys, checked, made⟩ := Preparation.orRefuse_eq_built.mp made
    obtain ⟨r, prepared, rfl⟩ := Preparation.ofRaw_eq_built.mp made
    exact .raw (require_eq_ok.mp here) checked (prepareRaw_eq_some.mpr prepared)
  case isFalse =>
    obtain ⟨tx, checked, made⟩ := Preparation.orRefuse_eq_built.mp made
    cases field : nonceField doc with
    | some jValue =>
        rw [field] at made
        obtain ⟨nonce, read, made⟩ := Preparation.orRefuse_eq_built.mp made
        exact .of_buildRequest checked (.given field (amount_eq_ok.mp read)) made
    | none =>
        rw [field] at made
        dsimp only at made
        split at made
        case isTrue => exact .of_database checked field made
        case isFalse => cases made

theorem prepareParams_asks (asks : prepareParams node doc id = .asks tx) :
    checkParams node doc id = .ok tx ∧ nonceField doc = none := by
  obtain ⟨-, -, asks⟩ := Preparation.orRefuse_eq_asks.mp asks
  obtain ⟨params, -, asks⟩ := Preparation.orRefuse_eq_asks.mp asks
  dsimp only at asks
  split at asks
  case isTrue =>
    obtain ⟨keys, -, asks⟩ := Preparation.orRefuse_eq_asks.mp asks
    exact absurd asks (Preparation.ofRaw_ne_asks _)
  case isFalse =>
    obtain ⟨tx', checked, asks⟩ := Preparation.orRefuse_eq_asks.mp asks
    cases field : nonceField doc with
    | some jValue =>
        rw [field] at asks
        obtain ⟨nonce, -, asks⟩ := Preparation.orRefuse_eq_asks.mp asks
        exact absurd asks (Preparation.ofOutcome_ne_asks _)
    | none =>
        rw [field] at asks
        dsimp only at asks
        split at asks
        case isTrue => exact absurd asks (Preparation.ofOutcome_ne_asks _)
        case isFalse =>
          cases asks
          exact ⟨checked, rfl⟩

theorem prepareParamsSync_built (made : prepareParamsSync node doc id = .built m) : Origin wire hosts node doc id m := by
  obtain ⟨tx', nonce, built, accepted, same⟩ := Preparation.ofOutcome_eq_built.mp made
  obtain ⟨tx, checked, accepted⟩ := orRefuse_eq_accepted.mp accepted
  cases field : nonceField doc with
  | some jValue =>
      rw [field] at accepted
      obtain ⟨given, read, accepted⟩ := orRefuse_eq_accepted.mp accepted
      refine .of_buildRequest checked (.given field (amount_eq_ok.mp read)) ?_
      exact Preparation.ofOutcome_eq_built.mpr ⟨tx', nonce, built, accepted, same⟩
  | none =>
      rw [field] at accepted
      refine .of_database checked field ?_
      exact Preparation.ofOutcome_eq_built.mpr ⟨tx', nonce, built, accepted, same⟩

def ReadsBack (wire : Wire) : Prop :=
  ∀ doc reply, Net.Blank doc → wire.parse (wire.stringify doc) = .ok reply → reply.get (text "result") = none

theorem onGetBalance_built (readsBack : ReadsBack wire) (checked : checkParams node doc id = .ok tx)
    (field : nonceField doc = none) {result : Json} (handed : Net.State.Handed hosts.tor result)
    (made : Preparation.ofOutcome (onGetBalance node tx (wire.parse (wire.stringify result))) = .built m) :
    Origin wire hosts node doc id m := by
  obtain ⟨tx', nonce, built, accepted, same⟩ := Preparation.ofOutcome_eq_built.mp made
  unfold onGetBalance at accepted
  split at accepted
  case h_1 => cases accepted
  case h_2 reply read =>
    split at accepted
    case h_1 => cases accepted
    case h_2 => cases accepted
    case h_3 res clean found =>
      obtain ⟨countSpent, count, accepted⟩ := orRefuse_eq_accepted.mp accepted
      rcases handed with ⟨body, parsed⟩ | blank
      · refine .of_buildRequest checked (.balance field parsed read clean found (require_eq_ok.mp count)) ?_
        exact Preparation.ofOutcome_eq_built.mpr ⟨tx', nonce, built, accepted, same⟩
      · cases (readsBack result reply blank read).symm.trans found

/-! ## Runs -/

def IsQuery (wire : Wire) (hosts : Hosts) (node : Node) (params : Bytes) (ask : Asked) : Prop :=
  ask.client = hosts.tor ∧ ask.path = text "/fetch-balance" ∧
    ∃ doc id tx, Handlers.accept wire.toBackend params = .ok (doc, id) ∧ checkParams node doc id = .ok tx ∧
      ask.body = balanceRequest tx.address

def IsSubmission (wire : Wire) (hosts : Hosts) (node : Node) (params : Bytes) (ask : Asked) : Prop :=
  ask.client = hosts.proxy ∧
    ∃ doc id m, Handlers.accept wire.toBackend params = .ok (doc, id) ∧
      ask.body = makeJson m (Writer.setId id Writer.initial) ∧ Origin wire hosts node doc id m

variable {relay : Relay} {method : Option Bytes} {writer : Json} {ask : Checked → Flow} {n : Nat} {p : Preparation}
  {asked : List Asked} {replies : List Json} {undefined : Bool} {params : Bytes}

theorem proceed_bounded (external : relay.client.ownsContext = false)
    (fits : 48 * max 1 relay.client.attemptsCount ≤ n) (asks : ∀ tx, p = .asks tx → (ask tx).Bounded n) :
    (proceed wire relay method writer ask p).Bounded n := by
  cases p with
  | undefined => exact .undefined n
  | refused thrown => exact .reply _ n
  | forwarded error => exact .reply _ n
  | built m => exact (Relay.execute_bounded external method _).mono fits
  | asks tx => exact asks tx rfl

theorem proceed_traced (traced : Traced n (proceed wire relay method writer ask p) asked replies undefined) :
    asked = [] ∨
      (∃ m entry, p = .built m ∧ asked = [entry] ∧ entry.client = relay.client ∧ entry.body = makeJson m writer) ∨
      ∃ tx, p = .asks tx ∧ Traced n (ask tx) asked replies undefined := by
  cases p with
  | undefined =>
      cases traced with
      | undefined => exact .inl rfl
  | refused thrown | forwarded error =>
      cases traced with
      | replied => exact .inl rfl
  | built m =>
      obtain ⟨⟨request, single⟩, -⟩ := Relay.execute_traced traced
      refine .inr (.inl ⟨m, _, rfl, single, ?_, ?_⟩)
      · dsimp only
      · dsimp only
  | asks tx => exact .inr (.inr ⟨tx, rfl, traced⟩)

theorem askBalance_bounded (external : hosts.proxy.ownsContext = false) (torExternal : hosts.tor.ownsContext = false)
    (tx : Checked) :
    (askBalance wire hosts node method writer tx).Bounded
      (48 * max 1 hosts.tor.attemptsCount + 48 * max 1 hosts.proxy.attemptsCount) := by
  refine .ask torExternal (m := 48 * max 1 hosts.proxy.attemptsCount) le_rfl fun result => ?_
  exact proceed_bounded external le_rfl fun _ asks => absurd asks (Preparation.ofOutcome_ne_asks _)

theorem performSend_bounded (external : hosts.proxy.ownsContext = false) (torExternal : hosts.tor.ownsContext = false)
    (params : Bytes) :
    (performSend wire hosts node params).Bounded
      (48 * max 1 hosts.tor.attemptsCount + 48 * max 1 hosts.proxy.attemptsCount) := by
  unfold performSend
  cases Handlers.accept wire.toBackend params with
  | error refusal => exact .reply _ _
  | ok accepted =>
      dsimp only
      split
      · exact proceed_bounded external (Nat.le_add_left _ _) fun _ asks =>
          absurd asks (Preparation.ofOutcome_ne_asks _)
      · exact proceed_bounded external (Nat.le_add_left _ _) fun tx _ => askBalance_bounded external torExternal tx

def Ordered (wire : Wire) (hosts : Hosts) (node : Node) (params : Bytes) (asked : List Asked) : Prop :=
  ∃ queries submissions, asked = queries ++ submissions ∧ queries.length ≤ 1 ∧ submissions.length ≤ 1 ∧
    (∀ ask ∈ queries, IsQuery wire hosts node params ask) ∧ ∀ ask ∈ submissions, IsSubmission wire hosts node params ask

theorem Ordered.nil : Ordered wire hosts node params [] :=
  ⟨[], [], rfl, Nat.zero_le 1, Nat.zero_le 1, by simp, by simp⟩

theorem Ordered.single {entry : Asked} (submission : IsSubmission wire hosts node params entry) :
    Ordered wire hosts node params [entry] :=
  ⟨[], [entry], rfl, Nat.zero_le 1, le_rfl, by simp, by simpa using submission⟩

theorem Ordered.cons {entry : Asked} {rest : List Asked} (query : IsQuery wire hosts node params entry)
    (few : rest.length ≤ 1) (submissions : ∀ ask ∈ rest, IsSubmission wire hosts node params ask) :
    Ordered wire hosts node params (entry :: rest) :=
  ⟨[entry], rest, rfl, le_rfl, few, by simpa using query, submissions⟩

theorem askBalance_ordered (readsBack : ReadsBack wire) (accepted : Handlers.accept wire.toBackend params = .ok (doc, id))
    (checked : checkParams node doc id = .ok tx) (field : nonceField doc = none)
    (traced : Traced n (askBalance wire hosts node method (Writer.setId id Writer.initial) tx) asked replies undefined) :
    Ordered wire hosts node params asked := by
  have query (next : Json → Flow) (request : Net.State) :
      IsQuery wire hosts node params ⟨hosts.tor, text "/fetch-balance", balanceRequest tx.address, next, request⟩ :=
    ⟨rfl, rfl, doc, id, tx, accepted, checked, rfl⟩
  cases traced with
  | waiting => exact .cons (query _ _) (Nat.zero_le 1) (by simp)
  | called _ _ _ _ handed later =>
      rcases proceed_traced later with rfl | ⟨m, entry, made, rfl, client, body⟩ | ⟨tx', asks, -⟩
      · exact .cons (query _ _) (Nat.zero_le 1) (by simp)
      · refine .cons (query _ _) le_rfl fun ask inside => ?_
        rw [List.mem_singleton.mp inside]
        exact ⟨client, doc, id, m, accepted, body, onGetBalance_built readsBack checked field handed made⟩
      · exact absurd asks (Preparation.ofOutcome_ne_asks _)

theorem performSend_ordered (readsBack : ReadsBack wire)
    (traced : Traced n (performSend wire hosts node params) asked replies undefined) :
    Ordered wire hosts node params asked := by
  unfold performSend at traced
  cases accepted : Handlers.accept wire.toBackend params with
  | error refusal =>
      rw [accepted] at traced
      cases traced with
      | replied => exact .nil
  | ok read =>
      obtain ⟨doc, id⟩ := read
      rw [accepted] at traced
      dsimp only at traced
      split at traced
      case isTrue =>
        rcases proceed_traced traced with rfl | ⟨m, entry, made, rfl, client, body⟩ | ⟨tx, asks, -⟩
        · exact .nil
        · exact .single ⟨client, doc, id, m, accepted, body, prepareParamsSync_built made⟩
        · exact absurd asks (Preparation.ofOutcome_ne_asks _)
      case isFalse =>
        rcases proceed_traced traced with rfl | ⟨m, entry, made, rfl, client, body⟩ | ⟨tx, asks, traced⟩
        · exact .nil
        · exact .single ⟨client, doc, id, m, accepted, body, prepareParams_built made⟩
        · obtain ⟨checked, field⟩ := prepareParams_asks asks
          exact askBalance_ordered readsBack accepted checked field traced

theorem send_tx_submits_once (wire : Wire) (hosts : Hosts) (node : Node) (external : hosts.proxy.ownsContext = false)
    (torExternal : hosts.tor.ownsContext = false) (readsBack : ReadsBack wire) (params : Bytes) (pooled : Bool)
    (labels : List Course.Label) (c : Course)
    (ran : runAllowed Course.step (fun _ _ => True) ((performSend wire hosts node params).start pooled) labels = some c) :
    labels.length ≤ 48 * max 1 hosts.tor.attemptsCount + 48 * max 1 hosts.proxy.attemptsCount ∧
      c.replies.length ≤ 1 ∧ Ordered wire hosts node params c.asked ∧
      (∀ k ask, c.asked[k]? = some ask →
        ((performSend wire hosts node params).start pooled).writes k labels ≤ max 1 ask.client.attemptsCount) ∧
      (hosts.proxy.useSsl = false → hosts.tor.useSsl = false → (∀ l, c.step l = none) →
        c.replies.length = 1 ∨ c.undefined = true ∨ ∃ ask ∈ c.asked, ask.request.thrown = true) := by
  have steps : (performSend wire hosts node params).Bounded _ := performSend_bounded external torExternal params
  obtain ⟨bounded, traced⟩ := (steps.start pooled).run ran
  refine ⟨bounded, traced.replies_le, performSend_ordered readsBack traced, fun k ask => steps.writes_le ran,
    fun _ _ stuck => ?_⟩
  exact traced.of_stuck (Course.stuck_requests stuck)

end

namespace Sample

def unnumbered : Bytes :=
  writePlain (.obj [(text "jsonrpc", .str (text "2.0")), (text "id", .int 7), (text "method", .str (text "send-tx")),
    (text "params", .obj [(text "address", .str address), (text "to", .str address), (text "value", .int 5)])])

def link : Wire where
  parse := readPlain
  useLocalDatabase := false
  validateMethods := false
  methodsSchema := none
  stringify doc := writePlain (if (doc.get (text "result")).isSome then doc else errorReply .null (-32603, []))

def host : Client := ⟨1, 1000, 500, text "host", false, false, fun body => (readPlain body).toOption⟩

def hosts : Hosts := ⟨host, host⟩

def roundTrip (body : String) : List Net.State.Label :=
  let done := Net.State.Label.complete 0 (.succeeded ⟨200, text body⟩)
  [.advance true, done, .advance true, .advance true, .advance true, .advance true, done, .advance true, .advance true,
    .advance true]

def balanceAndSend : List Course.Label :=
  (roundTrip "\x7b\"result\":\x7b\"count_spent\":4\x7d\x7d").map (⟨0, ·, true⟩) ++
    (roundTrip "\x7b\"result\":\"ok\",\"params\":\"0a1b\"\x7d").map (⟨1, ·, true⟩)

theorem link_readsBack : ReadsBack link := by
  rintro doc reply ⟨-, none⟩ read
  have same : link.stringify doc = writePlain (errorReply .null (-32603, [])) := by
    simp [link, none]
  have parsed : link.parse (writePlain (errorReply .null (-32603, []))) = .ok (errorReply .null (-32603, [])) := by
    decide +kernel
  rw [same] at read
  cases parsed.symm.trans read
  rfl

theorem balanceAndSend_runs :
    (runAllowed Course.step (fun _ _ => True) ((performSend link hosts node unnumbered).start true) balanceAndSend).map
      (fun c => (c.asked.length, c.replies)) = some (2, [resultReply (.int 7) (.str (text "0a1b"))]) := by
  decide +kernel

end Sample

theorem send_tx_submits_after_balance :
    ∃ c, runAllowed Course.step (fun _ _ => True)
        ((performSend Sample.link Sample.hosts Sample.node Sample.unnumbered).start true) Sample.balanceAndSend = some c ∧
      c.asked.length = 2 ∧ c.replies = [resultReply (.int 7) (.str (text "0a1b"))] ∧
      Ordered Sample.link Sample.hosts Sample.node Sample.unnumbered c.asked := by
  obtain ⟨c, ran, outcome⟩ := Option.map_eq_some_iff.mp Sample.balanceAndSend_runs
  obtain ⟨asked, replies⟩ := Prod.mk.inj outcome
  have sent := send_tx_submits_once _ Sample.hosts _ rfl rfl Sample.link_readsBack _ _ _ c ran
  exact ⟨c, ran, asked, replies, sent.2.2.1⟩

end FullnodeClient.Tx
