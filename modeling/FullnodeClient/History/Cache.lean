import FullnodeClient.Lib.JsonText
import FullnodeClient.Lib.Log
import FullnodeClient.Rpc.Json
import FullnodeClient.Tx.Address

/-!
# The history cache

`history_cache` keeps, for each configured address, the ids of its transactions under the address and each
transaction under its id. A step of its routine is the arrival of a reply; the process can be killed after any
of the Puts of a step. Where rapidjson asserts the type of a value and a reply can have another one, the
process goes down.
-/

namespace FullnodeClient.History
open FullnodeClient.Lib FullnodeClient.Text FullnodeClient.Rpc

/-- rapidjson: `Parse`, which can fail with a code, and `Accept` with a `Writer`. -/
structure Codec where
  parse : Bytes → Except Nat Json
  stringify : Json → Bytes

structure Settings where
  codec : Codec
  sha256 : Bytes → Bytes
  addresses : List Bytes

def toLower (str : Bytes) : Bytes := str.map lowerCase

/-- `history_cache_addrs` as `settings::read` fills it. -/
def Settings.historyCacheAddrs (settings : Settings) : List Bytes := settings.addresses.map toLower

/-- `m_addrs`. -/
def Settings.addrs (settings : Settings) : List Bytes := 
  settings.historyCacheAddrs.filter (Tx.validateAddress settings.sha256)

structure Put where
  key : Bytes
  value : Bytes
deriving DecidableEq

abbrev Log := List Put

def Log.get (log : Log) (key : Bytes) : Option Bytes := (log.find? (·.key = key)).map Put.value

abbrev HistoryM := LogM Put

structure Info where
  begin : UInt32
  txCount : UInt32
  addr : Bytes
  trx : Json

def size (elements : List Json) : UInt32 := UInt32.ofNat elements.length

def saveTransaction (codec : Codec) (name : Bytes) (trx : Json) : HistoryM Bool :=
  LogM.attempt ⟨cStr name, codec.stringify trx⟩

def saveHistory (codec : Codec) (info : Info) : HistoryM Bool := LogM.attempt ⟨info.addr, codec.stringify info.trx⟩

/-- `start` on one address. `Size` is only read of an array. -/
def reload (codec : Codec) (log : Log) (addr : Bytes) : Info :=
  match log.get addr with
  | none => ⟨0, 0, addr, .arr []⟩
  | some res =>
      match codec.parse res with
      | .error _ => ⟨0, 0, addr, .null⟩
      | .ok (.arr trx) => ⟨0, size trx, addr, .arr trx⟩
      | .ok trx => ⟨0, 0, addr, trx⟩

/-- The scan for a transaction with `strncmp`. -/
def found (name : Bytes) : List Json → Option Bool
  | [] => some false
  | .str t :: trx => if (cStr t).take t.length = (cStr name).take t.length then some true else found name trx
  | _ :: _ => none

def saveElement (codec : Codec) (element : Json) (trx : List Json) : HistoryM (List Json) :=
  match element.isObject, element.get (text "transaction") with
  | false, _ => throw ()
  | true, none => return trx
  | true, some (.str name) =>
      match found name trx with
      | none => throw ()
      | some true => return trx
      | some false => do
          if ← saveTransaction codec name element then return trx ++ [.str name] else return trx
  | true, some _ => throw ()

def savePage (codec : Codec) : List Json → List Json → HistoryM (List Json)
  | [], trx => return trx
  | element :: page, trx => do
      let trx ← saveElement codec element trx
      savePage codec page trx

def turn (codec : Codec) (info : Info) (trx : List Json) : HistoryM Bool :=
  if info.begin < info.txCount ∧ size trx < info.txCount then return true
  else do
    let _ ← saveHistory codec info
    return false

/-! ## The machine -/

inductive Phase
  | down
  | stopped
  | balance (index : Nat)
  | page (index : Nat)
deriving DecidableEq

structure State where
  log : Log
  infos : List Info
  phase : Phase

/-- What happens next. A reply is `none` if there is no response, if its body is empty or if it does not parse;
`junk` is what `GetUint` makes of a value that is no unsigned number. -/
inductive Action
  | start
  | balance (reply : Option Json) (junk : UInt32) (faults : List Nat)
  | page (reply : Option Json) (faults : List Nat)
  | stop

structure Label where
  action : Action
  killed : Option Nat

def State.initial : State := ⟨[], [], .down⟩

def result (reply : Option Json) : Option Json := do
  let doc ← reply
  if (doc.get (text "error")).isSome then none else doc.get (text "result")

def getUint (value : Json) (junk : UInt32) : UInt32 :=
  match value with
  | .int n => if 0 ≤ n ∧ n < 2 ^ 32 then UInt32.ofNat n.toNat else junk
  | _ => junk

def succeeds (faults : List Nat) (attempt : Nat) : Bool := attempt ∉ faults

def State.next (st : State) (index : Nat) : Phase := .balance (if index + 1 < st.infos.length then index + 1 else 0)

def State.proceed (st : State) (index : Nat) (faults : List Nat) (program : HistoryM (Info × Bool)) : State :=
  match program.runOn (succeeds faults) ⟨st.log, 0⟩ with
  | (.ok (info, more), disk) =>
      ⟨disk.log, st.infos.set index info, if more then .page index else st.next index⟩
  | (.error _, disk) => ⟨disk.log, [], .down⟩

def balanceReply (codec : Codec) (info : Info) (count : UInt32) (trx : List Json) : HistoryM (Info × Bool) := do
  let info := { info with txCount := count, begin := 0 }
  let more ← turn codec info trx
  return (info, more)

def pageReply (codec : Codec) (info : Info) (page trx : List Json) : HistoryM (Info × Bool) := do
  let trx ← savePage codec page trx
  let info := { info with trx := .arr trx, begin := info.begin + 10 }
  let more ← turn codec info trx
  return (info, more)

def act (settings : Settings) (st : State) : Action → Option State
  | .start =>
      match st.phase with
      | .down =>
          let infos := settings.addrs.map (reload settings.codec st.log)
          some ⟨st.log, infos, if infos.isEmpty then .stopped else .balance 0⟩
      | _ => none
  | .balance reply junk faults =>
      match st.phase with
      | .balance index =>
          match st.infos[index]?, result reply with
          | none, _ => none
          | some _, none => some { st with phase := st.next index }
          | some info, some value =>
              match value.isObject, value.get (text "count_txs"), info.trx with
              | false, _, _ => some ⟨st.log, [], .down⟩
              | true, none, _ => some { st with phase := st.next index }
              | true, some count, .arr trx =>
                  if size trx = getUint count junk then some { st with phase := st.next index }
                  else some (st.proceed index faults (balanceReply settings.codec info (getUint count junk) trx))
              | true, some _, _ => some ⟨st.log, [], .down⟩
      | _ => none
  | .page reply faults =>
      match st.phase with
      | .page index =>
          match st.infos[index]?, result reply with
          | none, _ => none
          | some info, some (.arr []) => some { st with infos := st.infos.set index { info with begin := 0 } }
          | some info, some (.arr page) =>
              match info.trx with
              | .arr trx => some (st.proceed index faults (pageReply settings.codec info page trx))
              | _ => some ⟨st.log, [], .down⟩
          | some _, _ => some st
      | _ => none
  | .stop =>
      match st.phase with
      | .down => none
      | _ => some { st with phase := .stopped }

def State.kill (st : State) (log : Log) (entries : Nat) : State :=
  ⟨st.log.drop (st.log.length - (log.length + entries)), [], .down⟩

def step (settings : Settings) (st : State) (l : Label) : Option State :=
  match act settings st l.action, l.killed with
  | some st', some entries => some (st'.kill st.log entries)
  | result, _ => result

def typeCode : Json → Nat
  | .null => 0
  | .bool false => 1
  | .bool true => 2
  | .obj _ => 3
  | .arr _ => 4
  | .str _ => 5
  | .int _ | .double _ => 6

def collect (codec : Codec) (log : Log) : List Json → Option (List Json)
  | [] => some []
  | .str name :: hst =>
      match log.get (cStr name) with
      | none => collect codec log hst
      | some str =>
          if str = [] then collect codec log hst
          else
            match codec.parse str with
            | .error _ => collect codec log hst
            | .ok t => (collect codec log hst).map (t :: ·)
  | _ :: _ => none

/-- The result of `get_history` and the document. The database is open whenever an address is found. -/
def getHistory (codec : Codec) (st : State) (address : Bytes) : Option (Bool × Json) :=
  let addr := toLower address
  if st.infos.all fun v => v.addr ≠ addr then some (false, .str (text "Address is not found"))
  else
    match st.log.get addr with
    | none => some (false, .str (text "Database error NotFound: "))
    | some str =>
        match codec.parse str with
        | .error code => some (false, .str (text "History parse error " ++ decimal code))
        | .ok (.arr hst) => (collect codec st.log hst).map fun doc => (true, .arr doc)
        | .ok hst => some (false, .str (text "History has different format " ++ decimal (typeCode hst)))

end FullnodeClient.History
