import FullnodeClient.Tx.Sending

/-!
# Creating a transaction

`create-tx` and `create-tx2` reply with a transaction that they have built and signed, and send nothing. A client can
give the transaction back to `send-tx`, which reads the fields out of it and signs it again.
-/

namespace FullnodeClient.Tx
open FullnodeClient.Lib FullnodeClient.Text FullnodeClient.Rpc

/-- What `create_tx_handler_v2::make_json` writes. -/
def Message.results (m : Message) : List (Bytes × Bytes) :=
  [(text "transaction", cStr m.transaction), (text "to", cStr m.toAddr), (text "value", decimal m.value),
    (text "fee", if m.fee = 0 then [] else decimal m.fee), (text "nonce", decimal m.nonce),
    (text "data", cStr m.data), (text "pubkey", m.pubKey), (text "sign", m.sign), (text "hash", m.hash)]

def makeJsonV2 (m : Message) (writer : Json) : Json :=
  m.results.foldl (fun writer result => Writer.addResult result.1 (.str result.2) writer) (Writer.reset writer)

inductive Version
  | createTx
  | createTx2

def Version.createHash : Version → Bool
  | createTx => false
  | createTx2 => true

def Version.member : Version → Bytes
  | createTx => text "params"
  | createTx2 => text "result"

def Version.makeJson : Version → Message → Json → Json
  | createTx => Tx.makeJson
  | createTx2 => makeJsonV2

/-- `perform` with one of the two handlers, whose `execute` does nothing. -/
def performCreate (backend : Backend) (node : Node) (version : Version) (params : Bytes) : Option Json :=
  match Handlers.accept backend params with
  | .error refusal => some refusal
  | .ok (doc, id) =>
      let writer := Writer.setId id Writer.initial
      match createTx node version.createHash doc id with
      | .accepted tx nonce made => some (version.makeJson (.ofBuilt tx nonce made) writer)
      | .refused thrown => some (endTry writer thrown)
      | _ => none

def Version.transaction (version : Version) (reply : Json) : Option Json :=
  (reply.get version.member).bind (·.get (text "transaction"))

theorem transaction_makeJson (version : Version) (m : Message) (writer : Json) :
    version.transaction (version.makeJson m writer) = some (.str (cStr m.transaction)) := by
  cases version with
  | createTx =>
      obtain ⟨_, _, _, _, _, _, _, _, hash⟩ := m
      cases hash <;> rfl
  | createTx2 => rfl

structure Node.Equipped (node : Node) (address : Bytes) (keys : Keys) : Prop where
  stored : node.keys address = some keys
  digest : ∀ data, (node.crypto.sha256 data).length = 32
  signs : ∀ data, data.length < 2 ^ 31 → ∃ sign, node.crypto.sign keys.prvKey data = some sign ∧ sign.length < 2 ^ 31
  publicKey : keys.pubKey.length + 1 < 2 ^ 32

section
variable {node : Node} {doc : Json} {id : Nat} {tx : Checked} {nonce : Nat} {made : Built}

theorem check_eq_ok {condition : Bool} {thrown : Thrown} {u : Unit} :
    check condition thrown = .ok u ↔ condition = true := by
  cases condition <;> simp [check]

theorem checkParams_payer (checked : checkParams node doc id = .ok tx) :
    tx.address ≠ [] ∧ validateAddress node.crypto.sha256 tx.address = true := by
  obtain ⟨-, -, checked⟩ := bind_eq_ok.mp checked
  obtain ⟨params, -, checked⟩ := bind_eq_ok.mp checked
  obtain ⟨_, given, checked⟩ := bind_eq_ok.mp checked
  obtain ⟨_, valid, checked⟩ := bind_eq_ok.mp checked
  obtain ⟨-, -, checked⟩ := bind_eq_ok.mp checked
  obtain ⟨-, -, checked⟩ := bind_eq_ok.mp checked
  obtain ⟨j, -, checked⟩ := bind_eq_ok.mp checked
  obtain ⟨value, -, checked⟩ := bind_eq_ok.mp checked
  obtain ⟨fee, -, checked⟩ := bind_eq_ok.mp checked
  obtain ⟨keys, -, checked⟩ := bind_eq_ok.mp checked
  cases checked
  exact ⟨of_decide_eq_true (check_eq_ok.mp given), check_eq_ok.mp valid⟩

theorem formatHex_isSome {s : Bytes} (small : s.length + 1 < 2 ^ 32) : ∃ bin, formatHex s = some bin := by
  have shorter : (cStr s).length ≤ s.length := (List.takeWhile_prefix _).length_le
  refine Option.isSome_iff_exists.mp (hex2bin_isSome_iff.mpr ?_)
  split
  case isTrue => rw [List.length_drop]; omega
  case isFalse => omega

theorem formatHex_bin2hex {b : Bytes} (small : b.length < 2 ^ 31) : formatHex (StringUtils.bin2hex b) = some b := by
  rw [← toHex_eq, formatHex_toHex, if_pos small]

theorem built_transaction (checked : checkParams node doc id = .ok tx) {createHash : Bool} (fits : nonce < 2 ^ 64)
    (accepted : buildRequest node createHash tx nonce = .accepted tx nonce made) (a : AddressText)
    (receiver : tx.toAddr = a.text) (small : tx.data.length < 2 ^ 30) :
    ∃ value fee number : UInt64, value.toNat = tx.value ∧ fee.toNat = made.fee ∧ number.toNat = nonce ∧
      made.transaction = StringUtils.bin2hex (a.request value fee number tx.data).encode := by
  obtain ⟨⟨bytes, data, sign, address, payload, -, hex, -⟩, fee⟩ := buildRequest_signed checked fits accepted
  obtain ⟨hv, hf⟩ := checkParams_lt checked
  have fee64 : made.fee < 2 ^ 64 := by
    rw [fee]
    split <;> omega
  have word {n : Nat} (fits : n < 2 ^ 64) : (UInt64.ofNat n).toNat = n := UInt64.toNat_ofNat_of_lt fits
  refine ⟨.ofNat tx.value, .ofNat made.fee, .ofNat nonce, word hv, word fee64, word fits, ?_⟩
  simp only [Message.ofBuilt] at address payload hex
  obtain rfl : Common.hex2bin2 a.digits = bytes := by simpa [receiver, a.formatHex_text] using address
  obtain rfl : tx.data = data := by
    rw [formatHex_toHex, if_pos (by omega)] at payload
    exact Option.some.inj payload
  have layout := (a.request (.ofNat tx.value) (.ofNat made.fee) (.ofNat nonce) tx.data).encode_length.2
  have wide : tx.data.length < 2 ^ 32 := by omega
  simp only [AddressText.request, TxFields.encode, word hv, word fee64, word fits, Nat.mod_eq_of_lt wide] at layout ⊢
  rw [crypto_bin2hex_eq (by omega)] at hex
  exact (Option.some.inj hex).symm

theorem makeTx_some {crypto : CryptoLib} {layout sign publicKey : Bytes}
    (digest : ∀ data, (crypto.sha256 data).length = 32) (some : layout ≠ [])
    (small : layout.length < 2 ^ 31) (short : sign.length < 2 ^ 31)
    (bounded : publicKey.length + 1 < 2 ^ 32) (m n : Nat) :
    ∃ hash, makeTx crypto "xuxux" [.str (StringUtils.bin2hex layout), .int m, .str (StringUtils.bin2hex sign), .int n,
      .str publicKey] = .some (.some hash) := by
  obtain ⟨key, read⟩ := formatHex_isSome bounded
  let data := layout ++ writeCompactInt (m % 2 ^ 32) ++ sign ++ writeCompactInt (n % 2 ^ 32) ++ key
  have chars : "xuxux".toList = ['x', 'u', 'x', 'u', 'x'] := rfl
  have formatted : format "xuxux".toList [.str (StringUtils.bin2hex layout), .int m, .str (StringUtils.bin2hex sign),
      .int n, .str publicKey] [] = .some data := by
    simp only [chars, format, formatHex_bin2hex small, formatHex_bin2hex short, read, Option.bind_eq_bind,
      Option.bind_some, List.nil_append, data]
  have whole : data ≠ [] := by simp [data, some]
  have hex := crypto_bin2hex_eq ((digest (crypto.sha256 data)).trans_lt (by norm_num))
  refine ⟨StringUtils.bin2hex (crypto.sha256 (crypto.sha256 data)), ?_⟩
  simp only [makeTx, formatted, Option.bind_eq_bind, Option.bind_some, if_neg whole, hex]
  rfl

structure Message.Agrees (m other : Message) : Prop where
  transaction : m.transaction = other.transaction
  toAddr : m.toAddr = other.toAddr.map lowerCase
  value : m.value = other.value
  fee : m.fee = other.fee
  nonce : m.nonce = other.nonce
  data : m.data = other.data
  pubKey : m.pubKey = other.pubKey

theorem AddressText.map_text (a : AddressText) : a.text.map lowerCase = a.lower := by
  rw [text, lower, List.map_append]
  rfl

theorem prepareTransaction_encode {sender : Node} {address : Bytes} {keys : Keys}
    (equipped : sender.Equipped address keys) (fields : TxFields) (small : fields.data.length < 2 ^ 30) :
    (fields.data = [] → prepareTransaction sender.crypto keys (StringUtils.bin2hex fields.encode) sender.beyond =
      .refused (invalidParam "failed on parse transaction")) ∧
      (fields.data ≠ [] → ∃ sign hash, sender.crypto.sign keys.prvKey fields.encode = some sign ∧
        sign.length < 2 ^ 31 ∧ prepareTransaction sender.crypto keys (StringUtils.bin2hex fields.encode) sender.beyond =
          .made ⟨fields.address, fields.value.toNat, fields.fee.toNat, fields.nonce.toNat,
            StringUtils.bin2hex fields.data, StringUtils.bin2hex sign, hash, fields.encode, fields.encode⟩) := by
  have parsed := fields.parseTansaction_encode (by omega) sender.beyond
  have length := fields.encode_length.2
  refine ⟨fun empty => ?_, fun some => ?_⟩
  · rw [if_pos empty] at parsed
    simp only [prepareTransaction, parsed]
  · rw [if_neg some] at parsed
    obtain ⟨sign, signed, short⟩ := equipped.signs fields.encode (by omega)
    have bytes : Crypto.hex2bin (StringUtils.bin2hex fields.encode) = .some fields.encode := by
      rw [hex2bin_plain (hasPrefix0x_eq_false (bin2hex_plain _).2), if_pos (by rw [bin2hex_length]; omega),
        hex2bin2_bin2hex]
    obtain ⟨hash, made⟩ := makeTx_some equipped.digest fields.encode_ne_nil (by omega) short equipped.publicKey
      ((StringUtils.bin2hex sign).length / 2) (keys.pubKey.length / 2)
    have hex : Crypto.bin2hex sign = .some (StringUtils.bin2hex sign) := crypto_bin2hex_eq (by omega)
    have signature : signData sender.crypto keys.prvKey fields.encode = .some (.some sign) := by
      rw [signData_eq (by omega), if_pos (by omega), signed]
    refine ⟨sign, hash, signed, short, ?_⟩
    simp only [prepareTransaction, parsed, bytes, Option.elim_some, signRaw, signature, hex,
      formatHex_bin2hex (show fields.encode.length < 2 ^ 31 by omega), made]

theorem createTx_built {createHash : Bool} (created : createTx node createHash doc id = .accepted tx nonce made) :
    checkParams node doc id = .ok tx ∧ nonce < 2 ^ 64 ∧
      buildRequest node createHash tx nonce = .accepted tx nonce made := by
  obtain ⟨tx', checked, created⟩ := orRefuse_eq_accepted.mp created
  obtain ⟨j, -, created⟩ := orRefuse_eq_accepted.mp created
  obtain ⟨n, read, created⟩ := orRefuse_eq_accepted.mp created
  obtain ⟨rfl, rfl⟩ := buildRequest_accepted created
  obtain ⟨tmp, -, read⟩ := Option.bind_eq_some_iff.mp (amount_eq_ok.mp read)
  exact ⟨checked, stoull_lt read, created⟩

theorem performCreate_eq {backend : Backend} {version : Version} {question : Bytes}
    (accepted : Handlers.accept backend question = .ok (doc, id))
    (created : createTx node version.createHash doc id = .accepted tx nonce made) :
    performCreate backend node version question =
      some (version.makeJson (.ofBuilt tx nonce made) (Writer.setId id Writer.initial)) := by
  simp only [performCreate, accepted, created]

theorem prepareParams_raw {sender : Node} {request params : Json} {address : Bytes} {keys : Keys}
    (given : request.get (text "params") = some params) (some : getString params "transaction" ≠ [])
    (payer : getString params "address" = address) (known : address ≠ [])
    (valid : validateAddress sender.crypto.sha256 address = true) (stored : sender.keys address = .some keys)
    (identified : id ≠ 0) :
    prepareParams sender request id = .ofRaw keys (getString params "transaction")
      (prepareTransaction sender.crypto keys (getString params "transaction") sender.beyond) := by
  have checked : checkRaw sender params = .ok keys := by
    simp only [checkRaw, payer, check, known, valid, stored, require, ne_eq, not_false_eq_true, decide_true, if_true,
      bind, Except.bind]
  have first : check (decide (id ≠ 0)) (invalidRequest "id field not found") = .ok () :=
    check_eq_ok.mpr (decide_eq_true identified)
  simp only [prepareParams, first, given, orRefuse, require, if_pos some, checked]

theorem encode_signed {crypto : CryptoLib} {prvKey sign : Bytes} (fields : TxFields)
    (small : fields.data.length < 2 ^ 30) (short : sign.length < 2 ^ 31)
    (signed : crypto.sign prvKey fields.encode = some sign) (pubKey hash : Bytes) :
    Message.Signed crypto prvKey ⟨StringUtils.bin2hex fields.encode, fields.address, fields.value.toNat,
      fields.fee.toNat, fields.nonce.toNat, StringUtils.bin2hex fields.data, pubKey, StringUtils.bin2hex sign,
      hash⟩ := by
  have wide : fields.data.length < 2 ^ 32 := by omega
  have layout := fields.encode_length.2
  refine ⟨fields.toAddr, fields.data, sign, fields.formatHex_address, formatHex_bin2hex (by omega), ?_⟩
  have written : fields.toAddr ++ writeCompactInt fields.value.toNat ++ writeCompactInt fields.fee.toNat ++
      writeCompactInt fields.nonce.toNat ++ writeCompactInt fields.data.length ++ fields.data = fields.encode := by
    rw [TxFields.encode, Nat.mod_eq_of_lt wide]
  dsimp only
  rw [written]
  exact ⟨signed, crypto_bin2hex_eq (by omega), crypto_bin2hex_eq (by omega)⟩

end

theorem performSend_eq {wire : Wire} {hosts : Hosts} {sender : Node} {question : Bytes} {request : Json} {id : Nat}
    (remote : sender.useLocalDatabase = false)
    (accepted : Handlers.accept wire.toBackend question = .ok (request, id)) :
    performSend wire hosts sender question =
      let writer := Writer.setId id Writer.initial
      proceed wire ⟨hosts.proxy, processResponse⟩ (Reader.getMethod request) writer
        (askBalance wire hosts sender (Reader.getMethod request) writer) (prepareParams sender request id) := by
  simp only [performSend, accepted, remote, Bool.false_eq_true, if_false]

theorem created_transaction_sent_iff (backend : Backend) (wire : Wire) (hosts : Hosts) (node sender : Node)
    (version : Version) {question question' : Bytes} {doc request params : Json} {id id' : Nat} {tx : Checked}
    {nonce : Nat} {made : Built} (accepted : Handlers.accept backend question = .ok (doc, id))
    (created : createTx node version.createHash doc id = .accepted tx nonce made) (a : AddressText)
    (receiver : tx.toAddr = a.text) (small : tx.data.length < 2 ^ 30) (equipped : sender.Equipped tx.address tx.keys)
    (digests : sender.crypto.sha256 = node.crypto.sha256) (remote : sender.useLocalDatabase = false)
    (accepted' : Handlers.accept wire.toBackend question' = .ok (request, id')) (identified : id' ≠ 0)
    (given : request.get (text "params") = some params) (payer : getString params "address" = tx.address)
    {reply : Json} (replied : performCreate backend node version question = some reply)
    (taken : version.transaction reply = some (.str (getString params "transaction"))) :
    (performSend wire hosts sender question' =
        .reply (endTry (Writer.setId id' Writer.initial) (invalidParam "failed on parse transaction")) ↔ tx.data = []) ∧
      (tx.data ≠ [] → ∃ m, performSend wire hosts sender question' =
          Relay.execute wire ⟨hosts.proxy, processResponse⟩ (Reader.getMethod request)
            (makeJson m (Writer.setId id' Writer.initial)) ∧
        m.Agrees (.ofBuilt tx nonce made) ∧ m.Signed sender.crypto tx.keys.prvKey) := by
  obtain ⟨checked, fits, built⟩ := createTx_built created
  obtain ⟨value, fee, number, valueIs, feeIs, numberIs, hex⟩ := built_transaction checked fits built a receiver small
  obtain ⟨known, valid⟩ := checkParams_payer checked
  let fields := a.request value fee number tx.data
  have sent : getString params "transaction" = StringUtils.bin2hex fields.encode := by
    obtain rfl := Option.some.inj ((performCreate_eq accepted created).symm.trans replied)
    rw [transaction_makeJson, Option.some.injEq, Json.str.injEq] at taken
    rw [← taken]
    change cStr made.transaction = _
    rw [hex, cStr_eq_self (bin2hex_plain _).1]
  have nonempty : getString params "transaction" ≠ [] := by
    have length := List.length_pos_iff.mpr fields.encode_ne_nil
    rw [sent, ← List.length_pos_iff, bin2hex_length]
    omega
  have prepared := prepareParams_raw given nonempty payer known (digests ▸ valid) equipped.stored identified
  have performed : performSend wire hosts sender question' = _ := performSend_eq remote accepted'
  rw [prepared, sent] at performed
  obtain ⟨refused, goes⟩ := prepareTransaction_encode equipped fields small
  have sends (some : tx.data ≠ []) :
      ∃ m, performSend wire hosts sender question' =
          Relay.execute wire ⟨hosts.proxy, processResponse⟩ (Reader.getMethod request)
            (makeJson m (Writer.setId id' Writer.initial)) ∧
        m.Agrees (.ofBuilt tx nonce made) ∧ m.Signed sender.crypto tx.keys.prvKey := by
    obtain ⟨sign, hash, signed, short, outcome⟩ := goes some
    rw [outcome] at performed
    refine ⟨_, performed, ⟨hex.symm, ?_, valueIs, feeIs, numberIs, (toHex_eq _).symm, rfl⟩,
      encode_signed fields small short signed _ _⟩
    change fields.address = tx.toAddr.map lowerCase
    rw [receiver, a.map_text, a.request_address]
  refine ⟨⟨fun failed => ?_, fun empty => ?_⟩, sends⟩
  · by_contra some
    obtain ⟨m, performed, -⟩ := sends some
    cases performed.symm.trans failed
  · rw [refused empty] at performed
    exact performed

namespace Sample

def payment : Json :=
  .obj [(text "address", .str address), (text "to", .str address), (text "value", .int 5), (text "nonce", .int 3),
    (text "data", .str (text "hi"))]

def asking (method : String) (params : Json) : Json :=
  .obj [(text "jsonrpc", .str (text "2.0")), (text "id", .int 7), (text "method", .str (text method)),
    (text "params", params)]

def creation : Json := asking "create-tx2" payment

def created : Bytes := List.replicate 50 48 ++ text "050203026869"

def takenOver : Json := .obj [(text "address", .str address), (text "transaction", .str created)]

def sending : Json := asking "send-tx" takenOver

theorem accept_creation : Handlers.accept link.toBackend (writePlain creation) = .ok (creation, 7) := by decide +kernel

theorem accept_sending : Handlers.accept link.toBackend (writePlain sending) = .ok (sending, 7) := by decide +kernel

theorem checkParams_creation :
    checkParams node creation 7 = .ok ⟨address, address, text "hi", ⟨[], []⟩, 5, 0⟩ := by
  have fields : creation.get (text "params") = some payment ∧ getString payment "address" = address ∧
      getString payment "to" = address ∧ payment.get (text "value") = some (.int 5) ∧
      payment.get (text "fee") = none ∧ getString payment "data" = text "hi" := ⟨rfl, rfl, rfl, rfl, rfl, rfl⟩
  obtain ⟨here, payer, receiver, jValue, jFee, data⟩ := fields
  have nonempty : address ≠ [] := by decide
  have converted : amount (.int 5) "value field incorrect format" = .ok 5 := amount_eq_ok.mpr (by decide +kernel)
  simp only [checkParams, here, payer, receiver, jValue, jFee, data, address_valid, converted, feeOf, require, check,
    bind, Except.bind, nonempty, ne_eq, not_false_eq_true, decide_true, if_true]
  rfl

theorem createTx_creation :
    createTx node true creation 7 = .accepted ⟨address, address, text "hi", ⟨[], []⟩, 5, 0⟩ 3
      ⟨2, created, text "01", List.replicate 64 48⟩ := by
  have signed : genSign node.crypto [] "xUUUux" (requestArgs address 5 2 3 (text "hi")) =
      some (some (created, text "01")) := by decide +kernel
  have made : makeTx node.crypto "xuxux"
      [.str created, .int ((text "01").length / 2), .str (text "01"), .int 0, .str []] =
        some (some (List.replicate 64 48)) := by
    decide +kernel
  have field : nonceField creation = some (.int 3) := rfl
  have read : amount (.int 3) "nonce field has incorrect format" = .ok 3 := amount_eq_ok.mpr (by decide +kernel)
  have size : (text "hi").length = 2 := rfl
  simp only [createTx, checkParams_creation, orRefuse, require, field, read, buildRequest, if_true, size, signed,
    List.length_nil, Nat.zero_div, made]

end Sample

theorem created_transaction_sent_with_data :
    ∃ m, performSend Sample.link Sample.hosts Sample.node (writePlain Sample.sending) =
        Relay.execute Sample.link ⟨Sample.hosts.proxy, processResponse⟩ (some (text "send-tx"))
          (makeJson m (Writer.setId 7 Writer.initial)) ∧
      m.transaction = Sample.created ∧ m.value = 5 ∧ m.fee = 2 ∧ m.nonce = 3 ∧ m.data = text "6869" := by
  have equipped : Sample.node.Equipped Sample.address ⟨[], []⟩ :=
    ⟨rfl, fun _ => rfl, fun _ _ => ⟨[1], rfl, by decide⟩, by decide⟩
  have identified : 7 ≠ 0 := by decide
  have replied : performCreate Sample.link.toBackend Sample.node .createTx2 (writePlain Sample.creation) = _ :=
    performCreate_eq Sample.accept_creation Sample.createTx_creation
  have given : Sample.sending.get (text "params") = some Sample.takenOver := rfl
  have whole : cStr Sample.created = getString Sample.takenOver "transaction" := by decide +kernel
  obtain ⟨-, sends⟩ := created_transaction_sent_iff _ Sample.link Sample.hosts Sample.node Sample.node .createTx2
    Sample.accept_creation Sample.createTx_creation .zero rfl (by decide) equipped rfl rfl Sample.accept_sending identified
    given rfl replied (whole ▸ transaction_makeJson _ _ _)
  obtain ⟨m, sent, agrees, -⟩ := sends (by decide)
  exact ⟨m, sent, agrees.transaction, agrees.value, agrees.fee, agrees.nonce, agrees.data⟩

end FullnodeClient.Tx
