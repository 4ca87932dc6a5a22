import FullnodeClient.Lib.Search
import FullnodeClient.Text.Hex
import Mathlib.Data.List.DropRight

/-!
# Upstream addresses

`utils::parse_address` of `task_handlers/utils.cpp` looks for each scheme anywhere in the address, and it
writes to variables of the caller: `use_ssl` is set and never cleared. `http_json_rpc_request` calls it
with its own `m_use_ssl`.
-/

namespace FullnodeClient.Net
open FullnodeClient.Lib FullnodeClient.Text

/-- The variables that `parse_address` takes by reference. -/
structure Parsed where
  host : Bytes
  port : Bytes
  path : Bytes
  useSsl : Bool
deriving DecidableEq

structure Scan where
  tmp : Bytes
  out : Parsed
deriving DecidableEq

namespace Scan

def http (scan : Scan) : Scan :=
  if (search (text "http://") scan.tmp).isSome then
    ⟨scan.tmp.drop 7, { scan.out with port := text "80" }⟩
  else scan

def https (scan : Scan) : Scan :=
  if (search (text "https://") scan.tmp).isSome then
    ⟨scan.tmp.drop 8, { scan.out with port := text "443", useSsl := true }⟩
  else scan

def path (scan : Scan) : Scan :=
  match search (text "/") scan.tmp with
  | some pos => ⟨scan.tmp.take pos, { scan.out with path := scan.tmp.drop pos }⟩
  | none => scan

def port (scan : Scan) : Scan :=
  match search (text ":") scan.tmp with
  | some pos => ⟨scan.tmp.take pos, { scan.out with port := scan.tmp.drop (pos + 1) }⟩
  | none => scan

def host (scan : Scan) : Parsed := { scan.out with host := scan.tmp }

end Scan

def parseAddress (address : Bytes) (out : Parsed) : Parsed := (Scan.mk address out).http.https.path.port.host

theorem Scan.path_plain {tmp : Bytes} (plain : 47 ∉ tmp) (out : Parsed) : (Scan.mk tmp out).path = ⟨tmp, out⟩ := by
  have nowhere : search (text "/") tmp = none := search_eq_none plain
  simp only [Scan.path, nowhere]

theorem Scan.path_append {front : Bytes} (plain : 47 ∉ front) (rest : Bytes) (out : Parsed) :
    (Scan.mk (front ++ 47 :: rest) out).path = ⟨front, { out with path := 47 :: rest }⟩ := by
  have there : search (text "/") (front ++ 47 :: rest) = some front.length := search_append plain rest
  simp only [Scan.path, there, List.take_left, List.drop_left]

theorem Scan.port_plain {tmp : Bytes} (plain : 58 ∉ tmp) (out : Parsed) : (Scan.mk tmp out).port = ⟨tmp, out⟩ := by
  have nowhere : search (text ":") tmp = none := search_eq_none plain
  simp only [Scan.port, nowhere]

theorem Scan.port_append {host : Bytes} (plain : 58 ∉ host) (rest : Bytes) (out : Parsed) :
    (Scan.mk (host ++ 58 :: rest) out).port = ⟨host, { out with port := rest }⟩ := by
  have there : search (text ":") (host ++ 58 :: rest) = some host.length := search_append plain rest
  have behind : (host ++ 58 :: rest).drop (host.length + 1) = rest := by simp
  simp only [Scan.port, there, List.take_left, behind]

theorem Scan.cut_useSsl (scan : Scan) : scan.path.port.host.useSsl = scan.out.useSsl := by
  have path : scan.path.out.useSsl = scan.out.useSsl := by
    unfold Scan.path
    split <;> rfl
  rw [← path, Scan.host, Scan.port]
  split <;> rfl

theorem Scan.cut {tmp : Bytes} (slash : 47 ∈ tmp) (out : Parsed) :
    let parsed := (Scan.mk tmp out).path.port.host
    (tmp = parsed.host ++ 58 :: parsed.port ++ parsed.path) ∨
      (tmp = parsed.host ++ parsed.path ∧ parsed.port = out.port) := by
  obtain ⟨front, rest, rfl, plain⟩ := List.eq_append_cons_of_mem slash
  rw [Scan.path_append plain]
  by_cases colon : 58 ∈ front
  · obtain ⟨host, port, rfl, bare⟩ := List.eq_append_cons_of_mem colon
    rw [Scan.port_append bare]
    exact .inl rfl
  · rw [Scan.port_plain colon]
    exact .inr ⟨rfl, rfl⟩

/-! ## Assembled addresses -/

structure Upstream where
  secure : Bool
  host : Bytes
  port : Option Bytes
  path : Bytes
  noSlash : 47 ∉ host
  noColon : 58 ∉ host
  decimal : ∀ digits ∈ port, digits ≠ [] ∧ ∀ c ∈ digits, isDigit c = true
  rooted : path = [] ∨ path.head? = some 47

namespace Upstream

variable (u : Upstream)

def front : Bytes := u.host ++ u.port.elim [] fun digits => 58 :: digits

def address : Bytes := (if u.secure then text "https://" else text "http://") ++ (u.front ++ u.path)

def parsed : Parsed where
  host := u.host
  port := u.port.getD (if u.secure then text "443" else text "80")
  path := u.path
  useSsl := u.secure

theorem digit_ne {c d : UInt8} (digit : isDigit c = true) (other : isDigit d = false) : c ≠ d := by
  rintro rfl
  rw [digit] at other
  cases other

theorem slash_notMem_front : 47 ∉ u.front := by
  intro member
  obtain inHost | inPort := List.mem_append.mp member
  · exact u.noSlash inHost
  · cases given : u.port with
    | none => simp [given] at inPort
    | some digits =>
        have inDigits : 47 ∈ digits := by simpa [given] using inPort
        exact digit_ne ((u.decimal digits given).2 47 inDigits) (by decide) rfl

theorem not_suffix_front {word : Bytes} : ¬ word ++ [58] <:+ u.front := by
  rintro ⟨a, whole⟩
  cases given : u.port with
  | none =>
      rw [front, given, Option.elim_none, List.append_nil] at whole
      exact u.noColon (by rw [← whole]; simp)
  | some digits =>
      obtain ⟨nonempty, digit⟩ := u.decimal digits given
      have last := congrArg List.getLast? whole
      rw [front, given, Option.elim_some, ← List.append_assoc, List.getLast?_concat, List.append_cons,
        List.getLast?_append_of_ne_nil _ nonempty] at last
      exact digit_ne (digit 58 (List.mem_of_getLast? last.symm)) (by decide) rfl

theorem scheme_infix_iff {word : Bytes} (single : 47 ∉ word) :
    word ++ [58] ++ [47, 47] <:+: u.front ++ u.path ↔ word ++ [58] ++ [47, 47] <:+: u.path := by
  constructor
  · exact infix_of_infix_append (by simp [single]) u.slash_notMem_front u.not_suffix_front u.rooted
  · exact fun inPath => inPath.trans (List.suffix_append _ _).isInfix

theorem cut_front (port : Bytes) (out : Parsed) :
    (Scan.mk (u.front ++ u.path) { out with port := port }).path.port.host =
      ⟨u.host, u.port.getD port, if u.path = [] then out.path else u.path, out.useSsl⟩ := by
  have cutPort (out : Parsed) : (Scan.mk u.front out).port.host =
      { out with host := u.host, port := u.port.getD out.port } := by
    cases given : u.port with
    | none =>
        rw [front, given, Option.elim_none, List.append_nil, Scan.port_plain u.noColon]
        rfl
    | some digits =>
        rw [front, given, Option.elim_some, Scan.port_append u.noColon]
        rfl
  cases shape : u.path with
  | nil =>
      rw [List.append_nil, Scan.path_plain u.slash_notMem_front, cutPort]
      rfl
  | cons c rest =>
      obtain rfl : c = 47 := by simpa [shape] using u.rooted
      rw [Scan.path_append u.slash_notMem_front, cutPort]
      rfl

theorem http_eq : text "http://" = text "http" ++ [58] ++ [47, 47] := by decide

theorem https_eq : text "https://" = text "https" ++ [58] ++ [47, 47] := by decide

theorem front_length : u.front.length = u.host.length + u.port.elim 0 fun digits => digits.length + 1 := by
  cases given : u.port <;> simp [front, given]

theorem https_front (out : Parsed) :
    (Scan.mk (u.front ++ u.path) out).https = if text "https://" <:+: u.path then
      ⟨(u.front ++ u.path).drop 8, { out with port := text "443", useSsl := true }⟩
    else ⟨u.front ++ u.path, out⟩ := by
  have found : (search (text "https://") (u.front ++ u.path)).isSome = true ↔ text "https://" <:+: u.path := by
    rw [search_isSome_iff, https_eq]
    exact u.scheme_infix_iff (by decide)
  simp only [Scan.https, found]

theorem http_infix_iff : text "http://" <:+: text "https://" ++ (u.front ++ u.path) ↔ text "http://" <:+: u.path := by
  constructor
  · intro occurs
    -- behind `https:` come two slashes, and the pattern begins with a letter
    have behind : text "http://" <:+: 47 :: 47 :: (u.front ++ u.path) := by
      have free : 47 ∉ text "https:" := by decide
      have apart : ¬ text "http" ++ [58] <:+ text "https:" := by decide
      rw [http_eq] at occurs ⊢
      exact infix_of_infix_append (by decide) free apart (.inr rfl) occurs
    have later : text "http://" <:+: u.front ++ u.path := by
      simpa [List.infix_cons_iff, http_eq, text] using behind
    rw [http_eq] at later ⊢
    exact (u.scheme_infix_iff (by decide)).mp later
  · intro inPath
    exact (inPath.trans (List.suffix_append _ _).isInfix).trans (List.suffix_append _ _).isInfix

theorem slash_mem_drop (marked : text "http://" <:+: u.path) : 47 ∈ (u.front ++ u.path).drop 7 := by
  obtain ⟨a, b, whole⟩ := marked
  have positive : 0 < a.length := by
    rw [List.length_pos_iff]
    rintro rfl
    have rooted := u.rooted
    rw [← whole] at rooted
    simp [text] at rooted
  have split : u.front ++ u.path = (u.front ++ a ++ text "http:/") ++ 47 :: b := by
    have slash : text "http://" = text "http:/" ++ [47] := by decide
    rw [← whole, slash]
    simp
  have six : (text "http:/").length = 6 := by decide
  rw [split, List.drop_append_of_le_length (by simp only [List.length_append]; omega)]
  simp

theorem cut_short (secure : u.secure = true) (marked : text "http://" <:+: u.path) (out : Parsed) :
    (Scan.mk ((u.front ++ u.path).drop 7) { out with port := text "443" }).path.port.host ≠ u.parsed := by
  intro right
  have cut := Scan.cut (u.slash_mem_drop marked) { out with port := text "443" }
  simp only [right, parsed, secure, if_true] at cut
  have nonempty : 0 < u.path.length := by
    obtain ⟨a, b, whole⟩ := marked
    rw [← whole]
    simp [http_eq]
  have three : (text "443").length = 3 := by decide
  have length := u.front_length
  have lengths : u.front.length + u.path.length - 7 =
      u.host.length + ((u.port.getD (text "443")).length + 1) + u.path.length ∨
        u.front.length + u.path.length - 7 = u.host.length + u.path.length ∧
          (u.port.getD (text "443")).length = 3 := by
    rw [← List.length_append, ← List.length_drop]
    obtain whole | ⟨whole, same⟩ := cut
    · exact .inl (by rw [whole, List.length_append, List.length_append, List.length_cons])
    · exact .inr ⟨by rw [whole, List.length_append], by rw [same, three]⟩
  cases given : u.port with
  | none =>
      rw [given, Option.elim_none] at length
      omega
  | some digits =>
      rw [given, Option.elim_some] at length
      rw [given, Option.getD_some] at lengths
      omega

variable {u}

theorem parse_http (secure : u.secure = false) (out : Parsed) :
    parseAddress u.address out = u.parsed ↔
      ¬ text "https://" <:+: u.path ∧ out.useSsl = false ∧ (u.path = [] → out.path = []) := by
  have found : (search (text "http://") u.address).isSome = true := by
    rw [search_isSome_iff, address, secure]
    exact (List.prefix_append _ _).isInfix
  have stripped : (Scan.mk u.address out).http = ⟨u.front ++ u.path, { out with port := text "80" }⟩ := by
    rw [Scan.http, if_pos found, address, secure]
    rfl
  rw [parseAddress, stripped, https_front]
  split
  case isTrue marked =>
    constructor
    · intro right
      have ssl := congrArg Parsed.useSsl right
      rw [Scan.cut_useSsl, parsed, secure] at ssl
      cases ssl
    · intro right
      exact absurd marked right.1
  case isFalse plain =>
    rw [cut_front]
    simp only [parsed, secure, Parsed.mk.injEq, plain, true_and, not_false_eq_true]
    by_cases empty : u.path = [] <;> simp [empty, and_comm]

theorem parse_https_marked (secure : u.secure = true) (marked : text "http://" <:+: u.path) (out : Parsed) :
    parseAddress u.address out ≠ u.parsed := by
  have found : (search (text "http://") u.address).isSome = true := by
    rw [search_isSome_iff, address, secure]
    exact u.http_infix_iff.mpr marked
  have stripped : (Scan.mk u.address out).http = ⟨47 :: (u.front ++ u.path), { out with port := text "80" }⟩ := by
    rw [Scan.http, if_pos found, address, secure]
    rfl
  intro right
  rw [parseAddress, stripped, Scan.https] at right
  split at right
  case isFalse =>
    have whole : u.path = 47 :: (u.front ++ u.path) := by
      have path := congrArg Parsed.path right
      have bare : 47 ∉ ([] : Bytes) := List.not_mem_nil
      have cut := Scan.path_append bare (u.front ++ u.path) { out with port := text "80" }
      rw [List.nil_append] at cut
      rw [cut, Scan.port_plain List.not_mem_nil] at path
      exact path.symm
    have length := congrArg List.length whole
    simp at length
    omega
  case isTrue => exact u.cut_short secure marked { out with useSsl := true } right

theorem parse_https (secure : u.secure = true) (out : Parsed) :
    parseAddress u.address out = u.parsed ↔ ¬ text "http://" <:+: u.path ∧ (u.path = [] → out.path = []) := by
  by_cases marked : text "http://" <:+: u.path
  · exact iff_of_false (parse_https_marked secure marked out) (fun right => right.1 marked)
  · have missed : ¬ (search (text "http://") u.address).isSome = true := by
      rw [search_isSome_iff, address, secure]
      exact mt u.http_infix_iff.mp marked
    have found : (search (text "https://") u.address).isSome = true := by
      rw [search_isSome_iff, address, secure]
      exact (List.prefix_append _ _).isInfix
    have stripped : (Scan.mk u.address out).http.https =
        ⟨u.front ++ u.path, { out with port := text "443", useSsl := true }⟩ := by
      rw [Scan.http, if_neg missed, Scan.https, if_pos found, address, secure]
      rfl
    rw [parseAddress, stripped]
    have cut := u.cut_front (text "443") { out with useSsl := true }
    rw [cut]
    simp only [parsed, secure, Parsed.mk.injEq, marked, true_and, not_false_eq_true]
    by_cases empty : u.path = [] <;> simp [empty]

end Upstream

def isOws (c : UInt8) : Bool := c == 32 || c == 9

/-- The value that `m_req.set` stores; it throws where this is `none`. -/
def fieldValue (value : Bytes) : Option Bytes :=
  if 2 ^ 16 - 1 < value.length + 2 then none else some ((value.dropWhile isOws).rdropWhile isOws)

/-- `m_host`, `m_use_ssl` and the Host field of `m_req`. -/
structure Target where
  host : Bytes
  useSsl : Bool
  hostField : Option Bytes
deriving DecidableEq

namespace Target

/-- The constructor, which has no handler for what `m_req.set` throws. -/
def create (host : Bytes) : Option Target :=
  if host = [] then some ⟨host, false, none⟩
  else
    let parsed := parseAddress host ⟨[], [], [], false⟩
    (fieldValue parsed.host).map fun value => ⟨host, parsed.useSsl, some value⟩

def setHost (target : Target) (host : Bytes) : Target :=
  let parsed := parseAddress host ⟨[], [], [], target.useSsl⟩
  match fieldValue parsed.host with
  | some value => ⟨host, parsed.useSsl, some value⟩
  | none => ⟨host, parsed.useSsl, target.hostField⟩

def Forgets (last : Bytes) : Prop :=
  ∀ host host' target target' calls calls', create host = some target → create host' = some target' →
    ((calls ++ [last]).foldl setHost target).useSsl = ((calls' ++ [last]).foldl setHost target').useSsl ∧
    ((calls ++ [last]).foldl setHost target).hostField = ((calls' ++ [last]).foldl setHost target').hostField

end Target

theorem Scan.cut_host (tmp : Bytes) (out out' : Parsed) :
    (Scan.mk tmp out).path.port.host.host = (Scan.mk tmp out').path.port.host.host := by
  have port (tmp : Bytes) (out out' : Parsed) :
      (Scan.mk tmp out).port.host.host = (Scan.mk tmp out').port.host.host := by
    simp only [Scan.port]
    split <;> rfl
  simp only [Scan.path]
  split
  · exact port _ _ _
  · exact port _ _ _

theorem parseAddress_useSsl (address : Bytes) (useSsl : Bool) :
    (parseAddress address ⟨[], [], [], useSsl⟩).host = (parseAddress address ⟨[], [], [], false⟩).host ∧
    (parseAddress address ⟨[], [], [], useSsl⟩).useSsl =
      (useSsl || (parseAddress address ⟨[], [], [], false⟩).useSsl) := by
  have stripped : ∃ tmp port, ∃ secure : Bool, ∀ useSsl, (Scan.mk address ⟨[], [], [], useSsl⟩).http.https =
      ⟨tmp, [], port, [], useSsl || secure⟩ := by
    by_cases http : (search (text "http://") address).isSome = true
    · by_cases https : (search (text "https://") (address.drop 7)).isSome = true
      · exact ⟨address.drop 15, text "443", true, fun useSsl => by simp [Scan.http, Scan.https, http, https]⟩
      · exact ⟨address.drop 7, text "80", false, fun useSsl => by simp [Scan.http, Scan.https, http, https]⟩
    · by_cases https : (search (text "https://") address).isSome = true
      · exact ⟨address.drop 8, text "443", true, fun useSsl => by simp [Scan.http, Scan.https, http, https]⟩
      · exact ⟨address, [], false, fun useSsl => by simp [Scan.http, Scan.https, http, https]⟩
  obtain ⟨tmp, port, secure, stripped⟩ := stripped
  simp only [parseAddress, stripped, Scan.cut_useSsl, Bool.false_or, and_true]
  exact Scan.cut_host _ _ _

namespace Target

variable (last : Bytes)

theorem setHost_useSsl (target : Target) : (target.setHost last).useSsl =
    (target.useSsl || (parseAddress last ⟨[], [], [], false⟩).useSsl) := by
  rw [← (parseAddress_useSsl last target.useSsl).2, setHost]
  split <;> rfl

theorem setHost_hostField (target : Target) : (target.setHost last).hostField =
    (fieldValue (parseAddress last ⟨[], [], [], false⟩).host).or target.hostField := by
  rw [← (parseAddress_useSsl last target.useSsl).1, setHost]
  split
  case h_1 value given => rw [given]; rfl
  case h_2 given => rw [given]; rfl

theorem forgets_iff : Forgets last ↔ (parseAddress last ⟨[], [], [], false⟩).useSsl = true ∧
    (parseAddress last ⟨[], [], [], false⟩).host.length ≤ 2 ^ 16 - 3 := by
  simp only [Forgets, List.foldl_append, List.foldl_cons, List.foldl_nil, setHost_useSsl, setHost_hostField]
  constructor
  · intro forgets
    obtain ⟨ssl, field⟩ := forgets [] [] ⟨[], false, none⟩ ⟨[], false, none⟩ [] [text "https://a"] rfl rfl
    have before : [text "https://a"].foldl setHost ⟨[], false, none⟩ = ⟨text "https://a", true, some (text "a")⟩ := by
      decide
    rw [before] at ssl field
    refine ⟨by simpa using ssl, ?_⟩
    by_contra long
    have thrown : fieldValue (parseAddress last ⟨[], [], [], false⟩).host = none := if_pos (by omega)
    rw [thrown] at field
    cases field
  · rintro ⟨ssl, short⟩ host host' target target' calls calls' - -
    have stored : fieldValue (parseAddress last ⟨[], [], [], false⟩).host = some _ := if_neg (by omega)
    rw [ssl, stored, Bool.or_true, Bool.or_true]
    exact ⟨rfl, rfl⟩

end Target

theorem upstream_address_iff (u : Upstream) (out : Parsed) (last : Bytes) :
    (parseAddress u.address out = u.parsed ↔
      (if u.secure then ¬ text "http://" <:+: u.path else ¬ text "https://" <:+: u.path ∧ out.useSsl = false) ∧
        (u.path = [] → out.path = [])) ∧
    (Target.Forgets last ↔ (parseAddress last ⟨[], [], [], false⟩).useSsl = true ∧
      (parseAddress last ⟨[], [], [], false⟩).host.length ≤ 2 ^ 16 - 3) := by
  refine ⟨?_, Target.forgets_iff last⟩
  cases secure : u.secure with
  | true => exact Upstream.parse_https secure out
  | false => exact (Upstream.parse_http secure out).trans and_assoc.symm

theorem upstream_address_confused :
    parseAddress (text "https://a/?u=http://b") ⟨[], [], [], false⟩ = ⟨[], text "80", text "/a/?u=http://b", false⟩ ∧
      (Target.create (text "https://a")).map (·.setHost (text "http://b")) =
        some ⟨text "http://b", true, some (text "b")⟩ ∧
      ¬ Target.Forgets (text "http://b") := by
  refine ⟨by decide, by decide, ?_⟩
  rw [Target.forgets_iff]
  decide

end FullnodeClient.Net
