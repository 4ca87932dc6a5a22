import FullnodeClient.Rpc.Json
import FullnodeClient.Tx.Address
import FullnodeClient.Tx.SendRaw

/-!
# The amounts of a transaction

`create-tx`, `create-tx2` and `send-tx`, from the parsed request to the signed transaction. Amounts go from
JSON through `val2str` to `std::stoull`.
-/

namespace FullnodeClient.Tx
open FullnodeClient.Lib FullnodeClient.Text FullnodeClient.Rpc

/-- `val2str`, which returns false where this is `none`. -/
def val2str : Json → Option Bytes
  | .str s => if cStr s = [] then none else some (cStr s)
  | .int n => if -2 ^ 63 ≤ n ∧ n < 2 ^ 64 then some (intToString n) else none
  | _ => none

/-- `std::stoull`, which throws where this is `none`. A negative number is negated in 64 bits. -/
def stoull (s : Bytes) : Option Nat :=
  let convert (digits : Bytes) (negative : Bool) : Option Nat :=
    let value := digitsValue digits
    if digits.head?.any isDigit ∧ value < 2 ^ 64 then some (if negative then (2 ^ 64 - value) % 2 ^ 64 else value)
    else none
  match (cStr s).dropWhile isSpace with
  | 45 :: digits => convert digits true
  | 43 :: digits => convert digits false
  | digits => convert digits false

def require {α : Type} (x : Option α) (thrown : Thrown) : Except Thrown α :=
  match x with
  | some a => .ok a
  | none => .error thrown

def check (condition : Bool) (thrown : Thrown) : Except Thrown Unit := if condition then .ok () else .error thrown

def getString (params : Json) (name : String) : Bytes :=
  match params.get (text name) with
  | some (.str s) => s
  | _ => []

def convert (tmp : Bytes) : Except Thrown Nat := require (stoull tmp) (.std (text "stoull"))

def amount (jValue : Json) (message : String) : Except Thrown Nat := do
  convert (← require (val2str jValue) (invalidParam message))

/-- What cannot be converted to text leaves the fee at zero. -/
def feeOf (jValue : Option Json) : Except Thrown Nat :=
  match jValue.bind val2str with
  | some tmp => convert tmp
  | none => .ok 0

structure Node where
  crypto : CryptoLib
  /-- `storage::keys::peek`. -/
  keys : Bytes → Option Keys
  useLocalDatabase : Bool
  /-- `countSpent` of the balances, if there is a database. -/
  sync : Option (Bytes → UInt64)
  /-- The memory behind the text of a transaction. -/
  beyond : Bytes

structure Checked where
  address : Bytes
  toAddr : Bytes
  data : Bytes
  keys : Keys
  value : Nat
  fee : Nat

def checkParams (node : Node) (doc : Json) (id : Nat) : Except Thrown Checked := do
  check (id ≠ 0) (invalidRequest "id field not found")
  let params ← require (doc.get (text "params")) (invalidRequest "params field not found")
  let address := getString params "address"
  check (address ≠ []) (invalidParam "address field not found")
  check (validateAddress node.crypto.sha256 address) (invalidParam "payer address is invalid")
  let toAddr := getString params "to"
  check (toAddr ≠ []) (invalidParam "to field not found")
  check (validateAddress node.crypto.sha256 toAddr) (invalidParam "reciever address is invalid")
  let jValue ← require (params.get (text "value")) (invalidParam "value field not found")
  let value ← amount jValue "value field incorrect format"
  let fee ← feeOf (params.get (text "fee"))
  let data := getString params "data"
  let keys ← require (node.keys address) (invalidParam "failed on get keys")
  return ⟨address, toAddr, data, keys, value, fee⟩

structure Built where
  fee : Nat
  transaction : Bytes
  sign : Bytes
  hash : Bytes

inductive Outcome
  | undefined
  | refused (thrown : Thrown)
  | forwarded (error : Json)
  | raw (transaction : Option RawSend)
  | accepted (tx : Checked) (nonce : Nat) (built : Built)

def buildRequest (node : Node) (createHash : Bool) (tx : Checked) (nonce : Nat) : Outcome :=
  let fee := if tx.fee = 0 then tx.data.length else tx.fee
  match genSign node.crypto tx.keys.prvKey "xUUUux" (requestArgs tx.toAddr tx.value fee nonce tx.data) with
  | none => .undefined
  | some none => .refused (invalidParam "failed on gen sign")
  | some (some (transaction, sign)) =>
      if createHash then
        match makeTx node.crypto "xuxux" [.str transaction, .int (sign.length / 2), .str sign,
          .int (tx.keys.pubKey.length / 2), .str tx.keys.pubKey] with
        | none => .undefined
        | some none => .refused (invalidParam "failed on generate tx")
        | some (some hash) => .accepted tx nonce ⟨fee, transaction, sign, hash⟩
      else .accepted tx nonce ⟨fee, transaction, sign, []⟩

def orRefuse {α β : Type} (refused : Thrown → β) (x : Except Thrown α) (next : α → β) : β :=
  match x with
  | .ok a => next a
  | .error thrown => refused thrown

def afterSpent (countSpent : Nat) : Nat := (countSpent + 1) % 2 ^ 64

abbrev BalanceReply := Except (Nat × Bytes) Json

def onGetBalance (node : Node) (tx : Checked) : BalanceReply → Outcome
  | .error (code, message) => .refused (.param (-32602)
      (text "fetch-balane response parse error (" ++ decimal code ++ text "): " ++ message))
  | .ok reply =>
      match reply.get (text "error"), reply.get (text "result") with
      | some err, _ => .forwarded err
      | none, none => .refused (invalidParam "No occur result or error")
      | none, some res =>
          orRefuse .refused (require ((res.get (text "count_spent")).bind Reader.uint64)
              (invalidParam "fetch-balane response: field 'count_spent' not found"))
            fun countSpent => buildRequest node true tx (afterSpent countSpent)

def nonceField (doc : Json) : Option Json := (doc.get (text "params")).bind (·.get (text "nonce"))

def fromDatabase (node : Node) (tx : Checked) : Outcome :=
  orRefuse .refused (require node.sync (invalidParam "Sync not set"))
    fun countSpent => buildRequest node true tx (afterSpent (countSpent tx.address).toNat)

/-- `create_tx_handler::prepare_params`, for `create-tx2` with the hash. -/
def createTx (node : Node) (createHash : Bool) (doc : Json) (id : Nat) : Outcome :=
  orRefuse .refused (checkParams node doc id) fun tx =>
    orRefuse .refused (require (nonceField doc) (invalidParam "nonce field not found")) fun jValue =>
      orRefuse .refused (amount jValue "nonce field has incorrect format") fun nonce => buildRequest node createHash tx nonce

/-- `check_params` of `send_tx_handler` for a request with the transaction itself. -/
def checkRaw (node : Node) (params : Json) : Except Thrown Keys := do
  let address := getString params "address"
  check (address ≠ []) (invalidParam "address field not found")
  check (validateAddress node.crypto.sha256 address) (invalidParam "address is invalid")
  require (node.keys address) (invalidParam "failed on get keys")

def sendTx (node : Node) (doc : Json) (id : Nat) (balance : BalanceReply) : Outcome :=
  orRefuse .refused (check (id ≠ 0) (invalidRequest "id field not found")) fun _ =>
    orRefuse .refused (require (doc.get (text "params")) (invalidRequest "params field not found")) fun params =>
      if getString params "transaction" ≠ [] then
        orRefuse .refused (checkRaw node params) fun keys =>
          .raw (prepareRaw node.crypto keys (getString params "transaction") node.beyond)
      else
        orRefuse .refused (checkParams node doc id) fun tx =>
          match nonceField doc with
          | some jValue =>
              orRefuse .refused (amount jValue "'nonce' field has incorrect format") fun nonce =>
                buildRequest node true tx nonce
          | none => if node.useLocalDatabase then fromDatabase node tx else onGetBalance node tx balance

def sendTxSync (node : Node) (doc : Json) (id : Nat) : Outcome :=
  orRefuse .refused (checkParams node doc id) fun tx =>
    match nonceField doc with
    | some jValue =>
        orRefuse .refused (amount jValue "nonce field incorrect format") fun nonce => buildRequest node true tx nonce
    | none => fromDatabase node tx

inductive Command
  | createTx
  | createTx2
  | sendTx

/-- The handler of a command, from the table of `task_handlers.cpp`. -/
def handle (node : Node) (command : Command) (doc : Json) (id : Nat) (balance : BalanceReply) : Outcome :=
  match command with
  | .createTx => createTx node false doc id
  | .createTx2 => createTx node true doc id
  | .sendTx => if node.useLocalDatabase then sendTxSync node doc id else sendTx node doc id balance

/-! ## What is stored -/

inductive Field
  | value
  | fee
  | nonce

def Field.name : Field → Bytes
  | value => text "value"
  | fee => text "fee"
  | nonce => text "nonce"

def Outcome.stored (field : Field) : Outcome → Option Nat
  | accepted tx nonce _ =>
      match field with
      | .value => some tx.value
      | .fee => some tx.fee
      | .nonce => some nonce
  | _ => none

def Field.read (j : Json) : Field → Option Nat
  | value => (val2str j).bind stoull
  | fee =>
      match val2str j with
      | some tmp => stoull tmp
      | none => some 0
  | nonce => (val2str j).bind stoull

section
variable {α : Type} {node : Node} {doc : Json} {id : Nat}

theorem require_eq_ok {x : Option α} {thrown : Thrown} {a : α} : require x thrown = .ok a ↔ x = some a := by
  cases x <;> simp [require]

theorem orRefuse_eq_iff {β : Type} {refused : Thrown → β} {x : Except Thrown α} {next : α → β} {b : β}
    (apart : ∀ thrown, refused thrown ≠ b) : orRefuse refused x next = b ↔ ∃ a, x = .ok a ∧ next a = b := by
  cases x <;> simp [orRefuse, apart]

theorem orRefuse_eq_accepted {x : Except Thrown α} {next : α → Outcome} {tx : Checked} {nonce : Nat} {built : Built} :
    orRefuse .refused x next = .accepted tx nonce built ↔ ∃ a, x = .ok a ∧ next a = .accepted tx nonce built :=
  orRefuse_eq_iff nofun

theorem amount_eq_ok {j : Json} {message : String} {n : Nat} :
    amount j message = .ok n ↔ (val2str j).bind stoull = some n := by
  simp only [amount, convert, bind_eq_ok, require_eq_ok, Option.bind_eq_some_iff]

theorem feeOf_eq_ok {j : Json} {n : Nat} : feeOf (some j) = .ok n ↔ Field.fee.read j = some n := by
  simp only [feeOf, Field.read, Option.bind_some]
  cases val2str j with
  | none => simp
  | some tmp => simp only [convert, require_eq_ok]

theorem buildRequest_accepted {createHash : Bool} {tx tx' : Checked} {nonce nonce' : Nat} {built : Built}
    (accepted : buildRequest node createHash tx nonce = .accepted tx' nonce' built) : tx' = tx ∧ nonce' = nonce := by
  unfold buildRequest at accepted
  dsimp only at accepted
  split at accepted
  case h_1 => cases accepted
  case h_2 => cases accepted
  case h_3 =>
    split at accepted
    case isTrue =>
      split at accepted
      case h_1 => cases accepted
      case h_2 => cases accepted
      case h_3 =>
        cases accepted
        exact ⟨rfl, rfl⟩
    case isFalse =>
      cases accepted
      exact ⟨rfl, rfl⟩

theorem checkParams_eq_ok {tx : Checked} (checked : checkParams node doc id = .ok tx) :
    ∃ params j, doc.get (text "params") = some params ∧ params.get (text "value") = some j ∧
      (val2str j).bind stoull = some tx.value ∧ feeOf (params.get (text "fee")) = .ok tx.fee := by
  obtain ⟨-, -, checked⟩ := bind_eq_ok.mp checked
  obtain ⟨params, found, checked⟩ := bind_eq_ok.mp checked
  obtain ⟨-, -, checked⟩ := bind_eq_ok.mp checked
  obtain ⟨-, -, checked⟩ := bind_eq_ok.mp checked
  obtain ⟨-, -, checked⟩ := bind_eq_ok.mp checked
  obtain ⟨-, -, checked⟩ := bind_eq_ok.mp checked
  obtain ⟨j, field, checked⟩ := bind_eq_ok.mp checked
  obtain ⟨value, converted, checked⟩ := bind_eq_ok.mp checked
  obtain ⟨fee, paid, checked⟩ := bind_eq_ok.mp checked
  obtain ⟨keys, -, checked⟩ := bind_eq_ok.mp checked
  cases checked
  exact ⟨params, j, require_eq_ok.mp found, require_eq_ok.mp field, amount_eq_ok.mp converted, paid⟩

theorem fromDatabase_accepted {tx tx' : Checked} {nonce : Nat} {built : Built}
    (accepted : fromDatabase node tx = .accepted tx' nonce built) : tx' = tx := by
  obtain ⟨countSpent, -, accepted⟩ := orRefuse_eq_accepted.mp accepted
  exact (buildRequest_accepted accepted).1

theorem onGetBalance_accepted {tx tx' : Checked} {balance : BalanceReply} {nonce : Nat} {built : Built}
    (accepted : onGetBalance node tx balance = .accepted tx' nonce built) : tx' = tx := by
  unfold onGetBalance at accepted
  split at accepted
  case h_1 => cases accepted
  case h_2 =>
    split at accepted
    case h_1 => cases accepted
    case h_2 => cases accepted
    case h_3 =>
      obtain ⟨countSpent, -, accepted⟩ := orRefuse_eq_accepted.mp accepted
      exact (buildRequest_accepted accepted).1

def Passed (node : Node) (doc : Json) (id : Nat) (tx : Checked) (nonce : Nat) : Prop :=
  checkParams node doc id = .ok tx ∧ ∀ j, nonceField doc = some j → (val2str j).bind stoull = some nonce

variable {tx : Checked} {nonce : Nat} {built : Built} {balance : BalanceReply}

theorem Passed.of_nonce {createHash : Bool} {j : Json} {message : String} {tx' : Checked}
    (checked : checkParams node doc id = .ok tx') (field : nonceField doc = some j)
    (accepted : orRefuse .refused (amount j message) (fun nonce => buildRequest node createHash tx' nonce) =
      .accepted tx nonce built) : Passed node doc id tx nonce := by
  obtain ⟨n, read, accepted⟩ := orRefuse_eq_accepted.mp accepted
  obtain ⟨rfl, rfl⟩ := buildRequest_accepted accepted
  refine ⟨checked, fun j' found => ?_⟩
  cases field.symm.trans found
  exact amount_eq_ok.mp read

theorem Passed.of_no_nonce (checked : checkParams node doc id = .ok tx) (field : nonceField doc = none) :
    Passed node doc id tx nonce :=
  ⟨checked, fun j found => by cases field.symm.trans found⟩

theorem createTx_accepted {createHash : Bool} (accepted : createTx node createHash doc id = .accepted tx nonce built) :
    Passed node doc id tx nonce := by
  obtain ⟨tx', checked, accepted⟩ := orRefuse_eq_accepted.mp accepted
  obtain ⟨j, found, accepted⟩ := orRefuse_eq_accepted.mp accepted
  exact .of_nonce checked (require_eq_ok.mp found) accepted

theorem sendTxSync_accepted (accepted : sendTxSync node doc id = .accepted tx nonce built) :
    Passed node doc id tx nonce := by
  obtain ⟨tx', checked, accepted⟩ := orRefuse_eq_accepted.mp accepted
  cases field : nonceField doc with
  | none =>
      rw [field] at accepted
      obtain rfl := fromDatabase_accepted accepted
      exact .of_no_nonce checked field
  | some j =>
      rw [field] at accepted
      exact .of_nonce checked field accepted

theorem sendTx_accepted (accepted : sendTx node doc id balance = .accepted tx nonce built) :
    Passed node doc id tx nonce := by
  obtain ⟨-, -, accepted⟩ := orRefuse_eq_accepted.mp accepted
  obtain ⟨params, -, accepted⟩ := orRefuse_eq_accepted.mp accepted
  split at accepted
  case isTrue =>
    obtain ⟨keys, -, accepted⟩ := orRefuse_eq_accepted.mp accepted
    cases accepted
  case isFalse =>
    obtain ⟨tx', checked, accepted⟩ := orRefuse_eq_accepted.mp accepted
    cases field : nonceField doc with
    | none =>
        have same : tx = tx' := by
          rw [field] at accepted
          dsimp only at accepted
          split at accepted
          case isTrue => exact fromDatabase_accepted accepted
          case isFalse => exact onGetBalance_accepted accepted
        exact .of_no_nonce (same ▸ checked) field
    | some j =>
        rw [field] at accepted
        exact .of_nonce checked field accepted

theorem handle_accepted {command : Command} (accepted : handle node command doc id balance = .accepted tx nonce built) :
    Passed node doc id tx nonce := by
  cases command with
  | createTx => exact createTx_accepted accepted
  | createTx2 => exact createTx_accepted accepted
  | sendTx =>
      simp only [handle] at accepted
      split at accepted
      case isTrue => exact sendTxSync_accepted accepted
      case isFalse => exact sendTx_accepted accepted

theorem stored_eq {command : Command} {field : Field} {params j : Json} {stored : Nat}
    (here : doc.get (text "params") = some params) (member : params.get field.name = some j)
    (accepted : (handle node command doc id balance).stored field = some stored) : field.read j = some stored := by
  cases outcome : handle node command doc id balance with
  | accepted tx nonce built =>
      rw [outcome] at accepted
      obtain ⟨checked, nonces⟩ := handle_accepted outcome
      obtain ⟨params', jValue, here', member', value, fee⟩ := checkParams_eq_ok checked
      cases here.symm.trans here'
      cases field with
      | value =>
          cases member.symm.trans member'
          exact value.trans accepted
      | fee =>
          rw [show params.get (text "fee") = some j from member] at fee
          exact (feeOf_eq_ok.mp fee).trans accepted
      | nonce =>
          have nonceHere : nonceField doc = some j := by rw [nonceField, here, Option.bind_some]; exact member
          exact (nonces j nonceHere).trans accepted
  | _ =>
      rw [outcome] at accepted
      cases accepted

end

def tokenValue (token : Bytes) : ℚ :=
  let digits := if token.head? = some 45 then token.tail else token
  let rest := digits.dropWhile isDigit
  let fraction := if rest.head? = some 46 then rest.tail.takeWhile isDigit else []
  let exponent := if rest.head? = some 46 then (rest.tail.dropWhile isDigit).tail else rest.tail
  let power : Int :=
    if exponent.head? = some 45 then -digitsValue exponent.tail
    else if exponent.head? = some 43 then digitsValue exponent.tail
    else digitsValue exponent
  (if token.head? = some 45 then -1 else 1) * digitsValue (digits.takeWhile isDigit ++ fraction) *
    (10 : ℚ) ^ (power - fraction.length)

example : tokenValue (text "-1.25e+2") = -125 := by decide +kernel

def Denotes (j : Json) (n : Nat) : Prop :=
  n < 2 ^ 64 ∧
    match j with
    | .int m => m = n
    | .double token => tokenValue token = n
    | .str s => s ≠ [] ∧ (∀ c ∈ s, isDigit c = true) ∧ digitsValue s = n
    | _ => False

def AtFaceValue (field : Field) (j : Json) : Prop :=
  ∀ node command doc id balance params stored, doc.get (text "params") = some params →
    params.get field.name = some j → (handle node command doc id balance).stored field = some stored → Denotes j stored

theorem isDigit_facts {c : UInt8} (digit : isDigit c = true) : c ≠ 0 ∧ isSpace c = false ∧ c ≠ 45 ∧ c ≠ 43 := by
  revert c
  apply forall_byte
  decide +kernel

theorem cStr_digits {s : Bytes} (digits : ∀ c ∈ s, isDigit c = true) : cStr s = s :=
  cStr_eq_self fun zero => (isDigit_facts (digits 0 zero)).1 rfl

theorem stoull_digits {s : Bytes} (some : s ≠ []) (digits : ∀ c ∈ s, isDigit c = true) :
    stoull s = if digitsValue s < 2 ^ 64 then .some (digitsValue s) else none := by
  obtain ⟨c, rest, rfl⟩ := List.exists_cons_of_ne_nil some
  have digit := digits c List.mem_cons_self
  obtain ⟨-, visible, minus, plus⟩ := isDigit_facts digit
  have front : (c :: rest).dropWhile isSpace = c :: rest := by rw [List.dropWhile_cons_of_neg (by simp [visible])]
  simp [stoull, cStr_digits digits, front, digit, minus, plus]

theorem stoull_minus {s : Bytes} (some : s ≠ []) (digits : ∀ c ∈ s, isDigit c = true) (small : digitsValue s < 2 ^ 64) :
    stoull (45 :: s) = .some ((2 ^ 64 - digitsValue s) % 2 ^ 64) := by
  obtain ⟨c, rest, rfl⟩ := List.exists_cons_of_ne_nil some
  have digit := digits c List.mem_cons_self
  have whole : cStr (45 :: c :: rest) = 45 :: c :: rest := by
    refine cStr_eq_self fun zero => ?_
    rcases List.mem_cons.mp zero with bad | bad
    · cases bad
    · exact (isDigit_facts (digits 0 bad)).1 rfl
  have front : (45 :: c :: rest).dropWhile isSpace = 45 :: c :: rest := List.dropWhile_cons_of_neg (by decide)
  simp only [stoull, whole, front, List.head?_cons, Option.any_some, digit, true_and, if_pos small, if_true]

theorem stoull_lt {s : Bytes} {n : Nat} (read : stoull s = some n) : n < 2 ^ 64 := by
  unfold stoull at read
  dsimp only at read
  split at read <;>
  · split at read
    case isTrue inside =>
      cases read
      first
        | exact inside.2
        | exact Nat.mod_lt _ (by norm_num)
    case isFalse => cases read

namespace Sample

def node : Node := ⟨⟨fun _ _ => some [1], fun _ => List.replicate 32 0⟩, fun _ => some ⟨[], []⟩, false, none, []⟩

def address : Bytes := AddressText.zero.text

def params (value fee nonce : Json) : Json :=
  .obj [(text "address", .str address), (text "to", .str address), (text "value", value), (text "fee", fee),
    (text "nonce", nonce)]

def request (value fee nonce : Json) : Json := .obj [(text "params", params value fee nonce)]

theorem address_valid : validateAddress node.crypto.sha256 address = true := by decide +kernel

theorem checkParams_request {value fee nonce : Json} {v f : Nat} (readValue : (val2str value).bind stoull = some v)
    (readFee : Field.fee.read fee = some f) :
    checkParams node (request value fee nonce) 1 = .ok ⟨address, address, [], ⟨[], []⟩, v, f⟩ := by
  have fields : (request value fee nonce).get (text "params") = some (params value fee nonce) ∧
      getString (params value fee nonce) "address" = address ∧ getString (params value fee nonce) "to" = address ∧
      (params value fee nonce).get (text "value") = some value ∧ (params value fee nonce).get (text "fee") = some fee ∧
      getString (params value fee nonce) "data" = [] := ⟨rfl, rfl, rfl, rfl, rfl, rfl⟩
  obtain ⟨here, payer, receiver, jValue, jFee, data⟩ := fields
  have nonempty : address ≠ [] := by decide
  have converted : amount value "value field incorrect format" = .ok v := amount_eq_ok.mpr readValue
  have paid : feeOf (some fee) = .ok f := feeOf_eq_ok.mpr readFee
  simp only [checkParams, here, payer, receiver, jValue, jFee, data, address_valid, converted, paid, require, check,
    bind, Except.bind, nonempty, ne_eq, not_false_eq_true, decide_true, if_true]
  rfl

theorem read_lt {field : Field} {j : Json} {n : Nat} (read : field.read j = some n) : n < 2 ^ 64 := by
  cases field with
  | value =>
      obtain ⟨tmp, -, read⟩ := Option.bind_eq_some_iff.mp read
      exact stoull_lt read
  | nonce =>
      obtain ⟨tmp, -, read⟩ := Option.bind_eq_some_iff.mp read
      exact stoull_lt read
  | fee =>
      simp only [Field.read] at read
      split at read
      case h_1 => exact stoull_lt read
      case h_2 =>
        cases read
        norm_num

theorem handle_request {value fee nonce : Json} {v f n : Nat} (readValue : Field.value.read value = some v)
    (readFee : Field.fee.read fee = some f) (readNonce : Field.nonce.read nonce = some n) :
    ∃ built, handle node .createTx (request value fee nonce) 1 (.error (0, [])) =
      .accepted ⟨address, address, [], ⟨[], []⟩, v, f⟩ n built := by
  have signs : CryptoLib.Signs node.crypto [] := fun _ _ => ⟨[1], rfl, by decide⟩
  have wordV : (UInt64.ofNat v).toNat = v := UInt64.toNat_ofNat_of_lt' (read_lt readValue)
  have wordF : (UInt64.ofNat f).toNat = f := UInt64.toNat_ofNat_of_lt' (read_lt readFee)
  have wordN : (UInt64.ofNat n).toNat = n := UInt64.toNat_ofNat_of_lt' (read_lt readNonce)
  have sent : (if f = 0 then ([] : Bytes).length else f) = f := by
    split
    case isTrue zero => exact zero.symm
    case isFalse => rfl
  have nonceHere : nonceField (request value fee nonce) = some nonce := rfl
  have converted : amount nonce "nonce field has incorrect format" = .ok n := amount_eq_ok.mpr readNonce
  rcases genSign_request signs .zero (.ofNat v) (.ofNat f) (.ofNat n) [] with ⟨-, sign, signed⟩ | ⟨long, -⟩
  · rw [wordV, wordF, wordN] at signed
    simp only [handle, createTx, checkParams_request readValue readFee, orRefuse, nonceHere, require, converted,
      buildRequest, sent]
    rw [show genSign node.crypto [] "xUUUux" (requestArgs address v f n []) = _ from signed]
    exact ⟨_, rfl⟩
  · have short := (AddressText.zero.request (.ofNat v) (.ofNat f) (.ofNat n) []).encode_length.2
    have none : (AddressText.zero.request (.ofNat v) (.ofNat f) (.ofNat n) []).data.length = 0 := rfl
    omega

-- Whatever the conversion of a field accepts, some request with it is accepted.
theorem exists_accepted {field : Field} {j : Json} {n : Nat} (read : field.read j = some n) :
    ∃ doc params, doc.get (text "params") = some params ∧ params.get field.name = some j ∧
      (handle node .createTx doc 1 (.error (0, []))).stored field = some n := by
  have zero : Field.value.read (.int 0) = some 0 ∧ Field.fee.read (.int 0) = some 0 ∧
      Field.nonce.read (.int 0) = some 0 := by
    decide +kernel
  cases field with
  | value =>
      obtain ⟨built, accepted⟩ := handle_request read zero.2.1 zero.2.2
      exact ⟨request j (.int 0) (.int 0), params j (.int 0) (.int 0), rfl, rfl, by rw [accepted]; rfl⟩
  | fee =>
      obtain ⟨built, accepted⟩ := handle_request zero.1 read zero.2.2
      exact ⟨request (.int 0) j (.int 0), params (.int 0) j (.int 0), rfl, rfl, by rw [accepted]; rfl⟩
  | nonce =>
      obtain ⟨built, accepted⟩ := handle_request zero.1 zero.2.1 read
      exact ⟨request (.int 0) (.int 0) j, params (.int 0) (.int 0) j, rfl, rfl, by rw [accepted]; rfl⟩

end Sample

theorem atFaceValue_iff_read (field : Field) (j : Json) :
    AtFaceValue field j ↔ ∀ n, field.read j = some n → Denotes j n := by
  constructor
  · intro faithful n read
    obtain ⟨doc, params, here, member, accepted⟩ := Sample.exists_accepted read
    exact faithful _ _ doc _ _ params n here member accepted
  · intro right node command doc id balance params stored here member accepted
    exact right stored (stored_eq here member accepted)

def Plain : Json → Prop
  | .int n => 0 ≤ n ∨ n < -2 ^ 63
  | .str s => ∀ n, stoull (cStr s) = some n → ∀ c ∈ s, isDigit c = true
  | _ => True

def PlainFee : Json → Prop
  | .int n => 0 ≤ n ∧ n < 2 ^ 64
  | .str s => cStr s ≠ [] ∧ ∀ n, stoull (cStr s) = some n → ∀ c ∈ s, isDigit c = true
  | .double token => tokenValue token = 0
  | _ => False

theorem stoull_nonneg {m : Int} (nonneg : 0 ≤ m) (small : m < 2 ^ 64) : stoull (intToString m) = some m.natAbs := by
  have digits : ∀ c ∈ decimal m.natAbs, isDigit c = true := fun c => isDigit_of_mem_decimal
  rw [intToString, if_neg (not_lt.mpr nonneg), stoull_digits (decimal_ne_nil _) digits, digitsValue_decimal,
    if_pos (by omega)]

theorem stoull_neg {m : Int} (negative : m < 0) (small : -2 ^ 63 ≤ m) : ∃ n, stoull (intToString m) = some n := by
  have digits : ∀ c ∈ decimal m.natAbs, isDigit c = true := fun c => isDigit_of_mem_decimal
  rw [intToString, if_pos negative]
  exact ⟨_, stoull_minus (decimal_ne_nil _) digits (by rw [digitsValue_decimal]; omega)⟩

theorem int_denotes_iff {m : Int} (range : -2 ^ 63 ≤ m ∧ m < 2 ^ 64) :
    (∀ n, stoull (intToString m) = some n → Denotes (.int m) n) ↔ 0 ≤ m := by
  constructor
  · intro right
    by_contra negative
    obtain ⟨n, read⟩ := stoull_neg (not_le.mp negative) range.1
    have same : m = n := (right n read).2
    omega
  · intro nonneg n read
    cases (stoull_nonneg nonneg range.2).symm.trans read
    exact ⟨by omega, (Int.natAbs_of_nonneg nonneg).symm⟩

theorem str_denotes_iff (s : Bytes) :
    (∀ n, stoull (cStr s) = some n → Denotes (.str s) n) ↔
      ∀ n, stoull (cStr s) = some n → ∀ c ∈ s, isDigit c = true := by
  constructor
  · intro right n read
    exact (right n read).2.2.1
  · intro digits n read
    have plain := digits n read
    rw [cStr_digits plain] at read
    have some : s ≠ [] := by
      rintro rfl
      cases read
    rw [stoull_digits some plain] at read
    split at read
    case isTrue small =>
      cases read
      exact ⟨small, some, plain, rfl⟩
    case isFalse => cases read

theorem plain_iff (j : Json) : (∀ n, (val2str j).bind stoull = some n → Denotes j n) ↔ Plain j := by
  cases j with
  | int m =>
      by_cases range : -2 ^ 63 ≤ m ∧ m < 2 ^ 64
      · simp only [val2str, if_pos range, Option.bind_some, int_denotes_iff range, Plain]
        omega
      · simp only [val2str, if_neg range, Option.bind_none, reduceCtorEq, false_imp_iff, implies_true, Plain, true_iff]
        omega
  | str s =>
      rw [Plain, ← str_denotes_iff]
      simp only [val2str]
      split
      case isTrue empty => rw [empty]; simp [stoull, cStr]
      case isFalse => rfl
  | _ => simp [val2str, Plain]

theorem plainFee_iff (j : Json) : (∀ n, Field.fee.read j = some n → Denotes j n) ↔ PlainFee j := by
  cases j with
  | int m =>
      by_cases range : -2 ^ 63 ≤ m ∧ m < 2 ^ 64
      · simp only [Field.read, val2str, if_pos range, int_denotes_iff range, PlainFee]
        omega
      · simp only [Field.read, val2str, if_neg range, Option.some.injEq, forall_eq', Denotes, PlainFee]
        omega
  | str s =>
      by_cases empty : cStr s = []
      · -- a string without text is no amount, and the fee stays zero
        have none : ¬Denotes (.str s) 0 := by
          rintro ⟨-, some, digits, -⟩
          exact some ((cStr_digits digits).symm.trans empty)
        simp [Field.read, val2str, PlainFee, empty, none]
      · have written : val2str (.str s) = some (cStr s) := if_neg empty
        simp only [Field.read, written, str_denotes_iff, PlainFee]
        exact (and_iff_right empty).symm
  | double token => simp [Field.read, val2str, PlainFee, Denotes]
  | _ => simp [Field.read, val2str, PlainFee, Denotes]

theorem amounts_at_face_value_iff (j : Json) :
    (AtFaceValue .value j ↔ Plain j) ∧ (AtFaceValue .nonce j ↔ Plain j) ∧ (AtFaceValue .fee j ↔ PlainFee j) := by
  refine ⟨?_, ?_, ?_⟩
  · rw [atFaceValue_iff_read]
    exact plain_iff j
  · rw [atFaceValue_iff_read]
    exact plain_iff j
  · rw [atFaceValue_iff_read]
    exact plainFee_iff j

theorem amounts_misread :
    ∃ built, handle Sample.node .createTx (Sample.request (.int (-1)) (.bool true) (.str (text "5abc"))) 1 (.error (0, [])) =
      .accepted ⟨Sample.address, Sample.address, [], ⟨[], []⟩, 2 ^ 64 - 1, 0⟩ 5 built := by
  refine Sample.handle_request ?_ ?_ ?_
  · decide +kernel
  · decide +kernel
  · decide +kernel

end FullnodeClient.Tx
