import FullnodeClient.Cache.Block
import FullnodeClient.Rpc.Json

/-!
# Blocks as JSON

The documents that `generate_json.cpp` makes of a block, with every field of the torrent library's
structures that it reads.
-/

namespace FullnodeClient.Handlers
open FullnodeClient.Lib FullnodeClient.Text FullnodeClient.Rpc

structure Delegate where
  value : Int
  isDelegate : Bool

inductive StatusKind
  | none
  | delegate
  | unDelegate (value : Int) (delegateHash : Bytes)
  | v8Status (isServerError isScriptError : Bool) (compiledContractAddress : Bytes)

structure TransactionStatus where
  isSuccess : Bool
  status : StatusKind

structure Transaction where
  hash : Bytes
  fromAddress : Bytes
  toAddress : Bytes
  value : Int
  fees : Int
  nonce : Nat
  blockNumber : Nat
  isSignBlockTx : Bool
  intStatus : Option Nat
  sign : Bytes
  pubKey : Bytes
  data : Bytes
  delegate : Option Delegate
  hasScriptInfo : Bool
  status : Option TransactionStatus

structure BlockHeader where
  timestamp : Nat
  blockSize : Nat
  blockType : Nat
  hash : Bytes
  prevHash : Bytes
  txsHash : Bytes
  signature : Bytes
  countTxs : Nat
  fileName : Bytes
  blockNumber : Option Nat

structure Block where
  header : BlockHeader
  txs : List Transaction

structure SignTransaction where
  blockHash : Bytes
  sign : Bytes
  pubkey : Bytes
  address : Bytes

inductive AnyBlock
  | block (b : Block)
  | signBlock (prevHash : Bytes) (txs : List SignTransaction)
  | rejectedTxs

inductive AnyTxInfo
  | transactions (txs : List Transaction)
  | signTransactions (txs : List SignTransaction)

/-- What the handlers use of the torrent library. `sourceFile` is `__FILE__` of `generate_json.cpp`. -/
structure Library where
  parseBlockDump : Bytes → Except Thrown AnyBlock
  calcHexString : Bytes → Bytes
  isEmpty : Bytes → Bool
  getBlockType : Nat → Except Thrown Bytes
  isStateBlock : Nat → Bool
  isForgingBlock : Nat → Bool
  realFee : Transaction → Nat
  isIntStatusNotSuccess : Transaction → Bool
  sourceFile : Bytes

namespace Library

def view (lib : Library) : AnyBlock → Cache.SomeBlock
  | .block b => .block {
      hash := b.header.hash
      prevHash := b.header.prevHash
      isStateBlock := lib.isStateBlock b.header.blockType
      isForgingBlock := lib.isForgingBlock b.header.blockType
      blockNumber := b.header.blockNumber
      txs := b.txs.map fun tx => ⟨tx.isSignBlockTx, tx.toAddress, tx.fromAddress, tx.data⟩ }
  | .signBlock prevHash txs => .signBlock ⟨prevHash, txs.map fun tx => ⟨tx.blockHash, tx.address⟩⟩
  | .rejectedTxs => .other

def cache (lib : Library) : Cache.TorrentLib where
  parseBlockDump dump := (lib.parseBlockDump dump).toOption.map lib.view
  calcHexString := lib.calcHexString

end Library

inductive JsonVersion
  | V1
  | V2
deriving DecidableEq

def intOrString (n : Int) (isString : Bool) : Json := if isString then .str (intToString n) else .int n

def hex (b : Bytes) : Json := .str (Common.toHex b)

/-- rapidjson moves the last member to the place of the removed one. -/
def removeMember (name : Bytes) (members : List (Bytes × Json)) : List (Bytes × Json) :=
  match members.findIdx? (·.1 = name), members.getLast? with
  | some i, some last => (members.set i last).dropLast
  | _, _ => members

def genErrorResponse (code : Int) (error : Bytes) (doc : Json) : Json :=
  doc.addMember (text "error") (.obj [(text "code", .int code), (text "message", .str error)])

def errorAt (lib : Library) (message : Bytes) (line : Nat) : Bytes :=
  message ++ text ". Error at file " ++ lib.sourceFile ++ text " line " ++ decimal line

def statusMembers (lib : Library) (info : Transaction) (isString : Bool) (members : List (Bytes × Json)) :
    List (Bytes × Json) :=
  let status (s : String) := (text "status", Json.str (text s))
  if !(info.delegate.isSome || info.hasScriptInfo) then
    members ++ [status (if info.intStatus.isNone || !lib.isIntStatusNotSuccess info then "ok" else "error")]
  else
    match info.status with
    | none => members ++ [status "pending"]
    | some s =>
        let members := members ++ [status (if s.isSuccess then "ok" else "error")]
        match s.status with
        | .none | .delegate => members
        | .unDelegate value delegateHash =>
            removeMember (text "delegate") members ++
              [(text "delegate", intOrString value isString), (text "delegateHash", hex delegateHash)]
        | .v8Status isServerError isScriptError address =>
            members ++
              (if !s.isSuccess && isServerError then [(text "isServerError", .bool true)] else []) ++
              (if !s.isSuccess && isScriptError then [(text "isScriptError", .bool true)] else []) ++
              (if lib.isEmpty address then [] else [(text "contractAddress", .str (lib.calcHexString address))])

def notInitialized (lib : Library) : Thrown := .string (errorAt lib (text "Transaction not initialized") 66)

def transactionInfoToJson (lib : Library) (info : Transaction) (bh : BlockHeader) (type : Nat)
    (version : JsonVersion) : Except Thrown Json :=
  if info.hash = [] then .error (notInitialized lib)
  else if type = 2 then do
    let isString : Bool := version = .V2
    let number := if info.blockNumber = 0 then bh.blockNumber.getD 0 else info.blockNumber
    let blockType ← lib.getBlockType bh.blockType
    return .obj (statusMembers lib info isString (
      [(text "from", .str (lib.calcHexString info.fromAddress)),
        (text "to", .str (lib.calcHexString info.toAddress)),
        (text "value", intOrString info.value isString),
        (text "transaction", hex info.hash),
        (text "data", hex info.data),
        (text "timestamp", intOrString bh.timestamp isString),
        (text "type", .str blockType),
        (text "blockNumber", intOrString number isString),
        (text "signature", hex info.sign),
        (text "publickey", hex info.pubKey),
        (text "fee", intOrString info.fees isString),
        (text "realFee", intOrString (lib.realFee info) isString),
        (text "nonce", intOrString info.nonce isString)] ++
      (info.intStatus.map fun s => (text "intStatus", Json.int s)).toList ++
      (match info.delegate with
        | some d => [(text "delegate", intOrString (if d.isDelegate then d.value else 0) isString),
            (text "isDelegate", .bool d.isDelegate)]
        | none => [])))
  else if type = 1 then .ok (hex info.hash)
  -- a `UserException`, which the handlers do not know
  else .error .unknown

def signTransactionInfoToJson (lib : Library) (info : SignTransaction) : Json :=
  .obj [(text "blockHash", hex info.blockHash), (text "signature", hex info.sign),
    (text "publickey", hex info.pubkey), (text "address", .str (lib.calcHexString info.address))]

def signaturesToJson (lib : Library) (bh : BlockHeader) (version : JsonVersion) : AnyTxInfo → Except Thrown (List Json)
  | .transactions txs => txs.mapM fun tx => transactionInfoToJson lib tx bh 2 version
  | .signTransactions txs => .ok (txs.map (signTransactionInfoToJson lib))

def headerMembers (lib : Library) (bh : BlockHeader) (signatures : AnyTxInfo) (version : JsonVersion) :
    Except Thrown (List (Bytes × Json)) :=
  match bh.blockNumber with
  | none => .error (.string (errorAt lib (text "Block header not set") 223))
  | some number => do
      let isString : Bool := version = .V2
      let blockType ← lib.getBlockType bh.blockType
      let signs ← signaturesToJson lib bh version signatures
      return [(text "type", .str blockType),
        (text "hash", hex bh.hash),
        (text "prev_hash", hex bh.prevHash),
        (text "tx_hash", hex bh.txsHash),
        (text "number", intOrString number isString),
        (text "timestamp", intOrString bh.timestamp isString),
        (text "count_txs", intOrString bh.countTxs isString),
        (text "sign", hex bh.signature),
        (text "size", .int bh.blockSize),
        (text "fileName", .str bh.fileName),
        (text "signatures", .arr signs)]

def zeroNumber : Bytes := text "Incorrect block number: 0. Genesis block begin with number 1"

def blockHeaderToJson (lib : Library) (bh : BlockHeader) (signatures : AnyTxInfo) (version : JsonVersion)
    (doc : Json) : Except Thrown Json :=
  if bh.blockNumber = some 0 then .ok (genErrorResponse (-32603) zeroNumber doc)
  else (headerMembers lib bh signatures version).map fun members => doc.addMember (text "result") (.obj members)

def blockInfoToJson (lib : Library) (bi : Block) (signatures : AnyTxInfo) (type : Nat) (version : JsonVersion)
    (doc : Json) : Except Thrown Json :=
  if bi.header.blockNumber = some 0 then .ok (genErrorResponse (-32603) zeroNumber doc)
  else do
    let members ← headerMembers lib bi.header signatures version
    let txs ← bi.txs.mapM fun tx => transactionInfoToJson lib tx bi.header type version
    return doc.addMember (text "result") (.obj (members ++ [(text "txs", .arr txs)]))

end FullnodeClient.Handlers
