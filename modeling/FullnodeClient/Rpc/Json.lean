import FullnodeClient.Lib.JsonText
import FullnodeClient.Text.Hex

/-!
# JSON-RPC documents

The reader and the writer of `jsonrpc/json_rpc.cpp` on parsed documents, and the error replies of
`exception/except.h`.
-/

namespace FullnodeClient.Rpc
open FullnodeClient.Lib FullnodeClient.Text

/-- A rapidjson value. A number that is no integer of 64 bits is a double, here with its token. -/
inductive Json
  | null
  | bool (b : Bool)
  | int (n : Int)
  | double (token : Bytes)
  | str (s : Bytes)
  | arr (elements : List Json)
  | obj (members : List (Bytes × Json))

namespace Json

mutual

def same : Json → Json → Bool
  | null, null => true
  | bool a, bool b => a == b
  | int m, int n => m == n
  | double s, double t => s == t
  | str s, str t => s == t
  | arr vs, arr ws => sameList vs ws
  | obj vs, obj ws => sameMembers vs ws
  | _, _ => false
termination_by structural v => v

def sameList : List Json → List Json → Bool
  | [], [] => true
  | v :: vs, w :: ws => same v w && sameList vs ws
  | _, _ => false
termination_by structural vs => vs

def sameMembers : List (Bytes × Json) → List (Bytes × Json) → Bool
  | [], [] => true
  | v :: vs, w :: ws => sameMember v w && sameMembers vs ws
  | _, _ => false
termination_by structural vs => vs

def sameMember : Bytes × Json → Bytes × Json → Bool
  | (name, v), (other, w) => name == other && same v w
termination_by structural v => v

end

mutual

theorem same_iff : ∀ v w : Json, same v w = true ↔ v = w
  | null, w | bool _, w | int _, w | double _, w | str _, w => by cases w <;> simp [same]
  | arr vs, w => by cases w <;> simp [same, sameList_iff vs]
  | obj vs, w => by cases w <;> simp [same, sameMembers_iff vs]

theorem sameList_iff : ∀ vs ws : List Json, sameList vs ws = true ↔ vs = ws
  | [], ws => by cases ws <;> simp [sameList]
  | v :: vs, ws => by cases ws <;> simp [sameList, same_iff v, sameList_iff vs]

theorem sameMembers_iff : ∀ vs ws : List (Bytes × Json), sameMembers vs ws = true ↔ vs = ws
  | [], ws => by cases ws <;> simp [sameMembers]
  | (_, v) :: vs, ws => by
      rcases ws with - | ⟨⟨_, w⟩, ws⟩ <;> simp [sameMembers, sameMember, same_iff v, sameMembers_iff vs]

end

instance : DecidableEq Json := fun v w => decidable_of_iff _ (same_iff v w)

def isObject : Json → Bool
  | obj _ => true
  | _ => false

/-- `FindMember`: of several members with the name the first one. -/
def get (name : Bytes) : Json → Option Json
  | obj members => (members.find? (·.1 = name)).map Prod.snd
  | _ => none

def assign (name : Bytes) (value : Json) : List (Bytes × Json) → List (Bytes × Json)
  | [] => [(name, value)]
  | (key, old) :: rest => if key = name then (key, value) :: rest else (key, old) :: assign name value rest

def set (json : Json) (name : Bytes) (value : Json) : Json :=
  match json with
  | obj members => obj (assign name value members)
  | _ => obj [(name, value)]

def addMember (json : Json) (name : Bytes) (value : Json) : Json :=
  match json with
  | obj members => obj (members ++ [(name, value)])
  | _ => json

variable {name other : Bytes} {value : Json}

@[simp] theorem get_set_self (json : Json) : (json.set name value).get name = some value := by
  cases json with
  | obj members =>
      simp only [set, get]
      induction members with
      | nil => simp [assign]
      | cons member rest ih =>
          by_cases same : member.1 = name
          · simp [assign, same]
          · simpa [assign, same] using ih
  | _ => simp [set, get]

theorem get_set_of_ne {members : List (Bytes × Json)} (distinct : name ≠ other) :
    ((obj members).set name value).get other = (obj members).get other := by
  simp only [set, get]
  induction members with
  | nil => simp [assign, distinct]
  | cons member rest ih =>
      by_cases same : member.1 = name
      · have : member.1 ≠ other := fun h => distinct (same.symm.trans h)
        simp [assign, same, distinct]
      · by_cases here : member.1 = other
        · simp [assign, here, Ne.symm distinct]
        · simpa [assign, same, here] using ih

/-! ## Texts -/

def ofNumber (token : Bytes) : Json :=
  match token with
  | 45 :: digits => if digits.all isDigit ∧ digitsValue digits ≤ 2 ^ 63 then .int (-digitsValue digits) else .double token
  | digits => if digits.all isDigit ∧ digitsValue digits < 2 ^ 64 then .int (digitsValue digits) else .double token

mutual

def ofTree : JsonText.Tree → Json
  | .null => .null
  | .bool b => .bool b
  | .number token => ofNumber token
  | .string raw => .str raw
  | .array items => .arr (ofTrees items)
  | .object members => .obj (ofMembers members)
termination_by structural tree => tree

def ofTrees : List JsonText.Tree → List Json
  | [] => []
  | tree :: trees => ofTree tree :: ofTrees trees
termination_by structural trees => trees

def ofMembers : List (Bytes × JsonText.Tree) → List (Bytes × Json)
  | [] => []
  | member :: members => ofMember member :: ofMembers members
termination_by structural members => members

def ofMember : Bytes × JsonText.Tree → Bytes × Json
  | (name, tree) => (name, ofTree tree)
termination_by structural member => member

end

end Json

/-- `std::to_string`. -/
def intToString (n : Int) : Bytes := if n < 0 then 45 :: decimal n.natAbs else decimal n.natAbs

/-- A text without escapes, with one error for all others. -/
def readPlain (bytes : Bytes) : Except (Nat × Bytes) Json :=
  (JsonText.parse bytes).elim (.error (3, text "Invalid value.")) fun tree => .ok (Json.ofTree tree)

mutual

def writePlain : Json → Bytes
  | .null => text "null"
  | .bool b => if b then text "true" else text "false"
  | .int n => intToString n
  | .double token => token
  | .str s => JsonText.quote s
  | .arr elements => 91 :: (writeElements elements ++ [93])
  | .obj members => 123 :: (writeMembers members ++ [125])
termination_by structural v => v

def writeElements : List Json → Bytes
  | [] => []
  | [v] => writePlain v
  | v :: vs => writePlain v ++ 44 :: writeElements vs
termination_by structural vs => vs

def writeMembers : List (Bytes × Json) → Bytes
  | [] => []
  | [v] => writeMember v
  | v :: vs => writeMember v ++ 44 :: writeMembers vs
termination_by structural vs => vs

def writeMember : Bytes × Json → Bytes
  | (name, v) => JsonText.quote name ++ 58 :: writePlain v
termination_by structural v => v

end

namespace Reader

/-- `std::stoi`, which throws where it is `none`. -/
def stoi (s : Bytes) : Option Int :=
  let convert (digits : Bytes) (sign : Int) : Option Int :=
    let value := sign * digitsValue digits
    if digits.head?.any isDigit ∧ -2 ^ 31 ≤ value ∧ value < 2 ^ 31 then some value else none
  match (cStr s).dropWhile isSpace with
  | 45 :: digits => convert digits (-1)
  | 43 :: digits => convert digits 1
  | digits => convert digits 1

def hasId (doc : Json) : Bool := (doc.get (text "id")).isSome

def uint32 (n : Int) : Nat := (n % 2 ^ 32).toNat

/-- `Get<uint64_t>` of a value that `Is<uint64_t>`. -/
def uint64 : Json → Option Nat
  | .int n => if 0 ≤ n ∧ n < 2 ^ 64 then some n.toNat else none
  | _ => none

/-- `get_id`, which throws where `std::stoi` does. -/
def getId (doc : Json) : Option Nat :=
  match doc.get (text "id") with
  | some (.str s) => (stoi s).map uint32
  | some (.int n) => some (if -2 ^ 31 ≤ n ∧ n < 2 ^ 32 then uint32 n else 0)
  | _ => some 0

def getMethod (doc : Json) : Option Bytes :=
  match doc.get (text "method") with
  | some (.str s) => some s
  | _ => none

end Reader

namespace Writer

def reset (doc : Json) : Json :=
  .obj [(text "jsonrpc", .str (text "2.0")), (text "id", (doc.get (text "id")).getD .null)]

def initial : Json := reset (.obj [])

def setId (id : Nat) (doc : Json) : Json := doc.set (text "id") (if id = 0 then .null else .int id)

/-- `set_error` with a code and a message, which is a C string. -/
def setError (code : Int) (message : Bytes) (doc : Json) : Json :=
  let error := (doc.get (text "error")).getD (.obj [])
  doc.set (text "error") ((error.set (text "code") (.int code)).set (text "message") (.str (cStr message)))

def setIn (field name : Bytes) (value doc : Json) : Json :=
  doc.set field (((doc.get field).getD (.obj [])).set name value)

def setErrorData (value doc : Json) : Json := setIn (text "error") (text "data") value doc

def addErrorData (name : Bytes) (value doc : Json) : Json :=
  let error := (doc.get (text "error")).getD (.obj [])
  doc.set (text "error") (setIn (text "data") name value error)

@[simp] theorem reset_get_id (doc : Json) :
    (reset doc).get (text "id") = some ((doc.get (text "id")).getD .null) := by
  simp [reset, Json.get, show text "jsonrpc" ≠ text "id" by decide]

end Writer

/-! ## Errors -/

inductive Thrown
  | param (code : Int) (what : Bytes)
  | string (what : Bytes)
  | std (what : Bytes)
  | unknown
deriving DecidableEq

namespace Thrown

def error : Thrown → Int × Bytes
  | param code what => (code, cStr what)
  | string what => (-32602, cStr what)
  | std what => (-32603, cStr what)
  | unknown => (-32603, text "Unknown exception")

end Thrown

def invalidParam (message : String) : Thrown := .param (-32602) (text message)

def invalidRequest (message : String) : Thrown := .param (-32600) (text message)

def errorReply (id : Json) (error : Int × Bytes) : Json :=
  .obj [(text "jsonrpc", .str (text "2.0")), (text "id", id),
    (text "error", .obj [(text "code", .int error.1), (text "message", .str error.2)])]

def resultReply (id result : Json) : Json :=
  .obj [(text "jsonrpc", .str (text "2.0")), (text "id", id), (text "result", result)]

def endTry (doc : Json) (thrown : Thrown) : Json := Writer.setError thrown.error.1 thrown.error.2 (Writer.reset doc)

theorem setError_reset (doc : Json) (code : Int) (message : Bytes) :
    Writer.setError code message (Writer.reset doc) =
      errorReply ((doc.get (text "id")).getD .null) (code, cStr message) := by
  have distinct : text "jsonrpc" ≠ text "error" ∧ text "id" ≠ text "error" ∧ text "code" ≠ text "message" := by decide
  simp [Writer.setError, Writer.reset, Json.get, Json.set, Json.assign, errorReply, distinct]

theorem endTry_eq (doc : Json) (thrown : Thrown) :
    endTry doc thrown = errorReply ((doc.get (text "id")).getD .null) thrown.error := by
  have cut : cStr thrown.error.2 = thrown.error.2 := by
    cases thrown <;> simp only [Thrown.error, cStr_cStr]
    decide
  rw [endTry, setError_reset, cut]

end FullnodeClient.Rpc
