import FullnodeClient.Handlers.Forwarding
import FullnodeClient.History.Consistency
import FullnodeClient.Tx.Amounts

/-!
# Searching the history

`fetch_transaction_handler` looks in the history of an address for the transactions that carry given data. The data
of a transaction are hex digits, which the handler makes of the text it is given.
-/

namespace FullnodeClient.History
open FullnodeClient.Lib FullnodeClient.Text FullnodeClient.Rpc FullnodeClient.Handlers

def data : Field where
  name := "data"
  read := string
  missing := some (invalidParam "data field not found")
  checks := [(nonempty, invalidParam "data is empty")]
  stored := id

def prepareSearch (historyCacheEnable : Bool) (sha256 : Bytes → Bytes) (doc : Json) (id : Nat) :
    Except Thrown (Bytes × Bytes) := do
  let params ← getParams doc id
  Tx.check historyCacheEnable (invalidParam "History cache is disabled")
  let _ ← (address sha256).take params
  let _ ← data.take params
  return (Tx.getString params "address", Tx.getString params "data")

/-- The body of the loop, which is undefined for data that are no string. -/
def carries (hex : Bytes) (v : Json) : Option Bool :=
  match v.isObject, v.get (text "data") with
  | false, _ => some false
  | true, none => some false
  | true, some (.str s) =>
      some (s.length = hex.length && (cStr hex).take hex.length = (cStr s).take hex.length)
  | true, some _ => none

def select (hex : Bytes) : List Json → Option (List Json)
  | [] => some []
  | v :: doc => do
      let found ← carries hex v
      let arr ← select hex doc
      return if found then v :: arr else arr

def search (codec : Codec) (st : State) (addr data : Bytes) (writer : Json) : Option Json :=
  let writer := Writer.reset writer
  match getHistory codec st addr with
  | some (true, .arr doc) => (select (Common.toHex data) doc).map fun arr => Writer.setResult (.arr arr) writer
  | some (false, .str message) => some (Writer.setError (-32301) message writer)
  | _ => none

def fetchTransaction (backend : Backend) (historyCacheEnable : Bool) (sha256 : Bytes → Bytes) (codec : Codec) (st : State)
    (params : Bytes) : Option Json :=
  match accept backend params with
  | .error refusal => some refusal
  | .ok (doc, id) =>
      let writer := Writer.setId id Writer.initial
      match prepareSearch historyCacheEnable sha256 doc id with
      | .error thrown => some (endTry writer thrown)
      | .ok (addr, data) => search codec st addr data writer

section
variable {hex : Bytes} {v : Json} {doc : List Json} {id : Nat}

def Textual (v : Json) : Prop := ∀ d, v.get (text "data") = some d → ∃ s, d = .str s

def hasData (hex : Bytes) (v : Json) : Bool :=
  match v.get (text "data") with
  | some (.str s) => s = hex
  | _ => false

theorem carries_eq (textual : Textual v) (whole : cStr hex = hex) : carries hex v = some (hasData hex v) := by
  unfold carries hasData
  cases v with
  | obj members =>
      cases found : (Json.obj members).get (text "data") with
      | none => rfl
      | some d =>
          obtain ⟨s, rfl⟩ := textual d found
          simp only [Json.isObject, whole, List.take_length, Option.some.injEq]
          rw [Bool.eq_iff_iff, Bool.and_eq_true, decide_eq_true_eq, decide_eq_true_eq, decide_eq_true_eq]
          constructor
          · rintro ⟨length, same⟩
            -- a string as long as its part before the first zero has no zero
            have none : cStr s = s := by
              refine (List.takeWhile_prefix _).eq_of_length_le ?_
              have short := congrArg List.length same
              rw [List.length_take] at short
              change s.length ≤ (cStr s).length
              omega
            rw [none, ← length, List.take_length] at same
            exact same.symm
          · rintro rfl
            exact ⟨rfl, by rw [whole, List.take_length]⟩
  | _ => rfl

theorem select_eq (textual : ∀ v ∈ doc, Textual v) (whole : cStr hex = hex) :
    select hex doc = some (doc.filter (hasData hex)) := by
  induction doc with
  | nil => rfl
  | cons v doc ih =>
      rw [List.forall_mem_cons] at textual
      simp only [select, carries_eq textual.1 whole, ih textual.2, bind, Option.bind_some, pure, List.filter_cons]

theorem cStr_toHex (b : Bytes) : cStr (Common.toHex b) = Common.toHex b := by
  rw [toHex_eq]
  exact cStr_eq_self (Tx.bin2hex_plain b).1

theorem setResult_reset (some : id ≠ 0) (value : Json) :
    Writer.setResult value (Writer.reset (Writer.setId id Writer.initial)) = resultReply (.int id) value := by
  have names : text "jsonrpc" ≠ text "result" ∧ text "id" ≠ text "result" := by decide
  rw [Writer.setResult, Writer.reset, setId_id some]
  simp [Json.set, Json.assign, names, resultReply]

theorem setError_reply (some : id ≠ 0) (code : Int) (message : Bytes) :
    Writer.setError code message (Writer.reset (Writer.setId id Writer.initial)) =
      errorReply (.int id) (code, cStr message) := by
  rw [setError_reset, setId_id some]

end

section
variable {settings : Settings} {st : State} {addr : Bytes}

theorem getHistory_unknown (addrs : st.infos.map Info.addr = settings.addrs) (unknown : toLower addr ∉ settings.addrs) :
    getHistory settings.codec st addr = some (false, .str (text "Address is not found")) := by
  have absent : (st.infos.all fun v => v.addr ≠ toLower addr) = true := by
    rw [← addrs] at unknown
    simpa using fun info inside same => unknown (List.mem_map.mpr ⟨info, inside, same⟩)
  rw [getHistory, if_pos absent]

theorem getHistory_unsaved (addrs : st.infos.map Info.addr = settings.addrs) (configured : toLower addr ∈ settings.addrs)
    (none : st.log.get (toLower addr) = .none) :
    getHistory settings.codec st addr = some (false, .str (text "Database error NotFound: ")) := by
  rw [getHistory, if_neg (present_of_configured addrs configured), none]

end

theorem fetch_transaction_searches_history (settings : Settings) (lawful : settings.codec.Lawful) {st : State}
    (reached : Reached (step settings) WellFormed .initial st) (running : st.phase ≠ .down) (backend : Backend)
    {params : Bytes} {doc : Json} {id : Nat} {addr sought : Bytes}
    (accepted : accept backend params = .ok (doc, id))
    (prepared : prepareSearch true settings.sha256 doc id = .ok (addr, sought)) :
    (toLower addr ∉ settings.addrs →
      fetchTransaction backend true settings.sha256 settings.codec st params =
        some (errorReply (.int id) (-32301, text "Address is not found"))) ∧
      (toLower addr ∈ settings.addrs → st.log.get (toLower addr) = none →
        fetchTransaction backend true settings.sha256 settings.codec st params =
          some (errorReply (.int id) (-32301, text "Database error NotFound: "))) ∧
      ∀ value, toLower addr ∈ settings.addrs → st.log.get (toLower addr) = some value →
        ∃ ids entries, settings.codec.parse value = .ok (.arr (ids.map .str)) ∧ ids.Nodup ∧
          List.Forall₂ (Returned settings.codec st.log) ids entries ∧
          ((∀ v ∈ entries, Textual v) →
            fetchTransaction backend true settings.sha256 settings.codec st params =
              some (resultReply (.int id) (.arr (entries.filter (hasData (StringUtils.bin2hex sought)))))) := by
  obtain ⟨moments, consistent⟩ := reached_consistent lawful reached
  have sound := moments st.log List.suffix_rfl
  have addrs := consistent.addrs running
  have identified : id ≠ 0 := by
    simp only [prepareSearch, bind_eq_ok, Form.getParams_eq_ok] at prepared
    obtain ⟨_, ⟨some, -⟩, -⟩ := prepared
    exact some
  have searched : fetchTransaction backend true settings.sha256 settings.codec st params =
      search settings.codec st addr sought (Writer.setId id Writer.initial) := by
    simp only [fetchTransaction, accepted, prepared]
  rw [searched]
  refine ⟨fun unknown => ?_, fun configured unsaved => ?_, fun value configured stored => ?_⟩
  · simp only [search, getHistory_unknown addrs unknown, setError_reply identified]
    rfl
  · simp only [search, getHistory_unsaved addrs configured unsaved, setError_reply identified]
    rfl
  · obtain ⟨ids, rfl, listed⟩ := sound.lists _ value (Settings.length_of_mem configured) stored
    obtain ⟨entries, history, returned⟩ := getHistory_returns lawful sound addrs configured listed stored
    refine ⟨ids, entries, lawful.ids ids listed.isId, listed.nodup, returned, fun textual => ?_⟩
    have selected := select_eq textual (cStr_toHex sought)
    rw [toHex_eq] at selected
    simp only [search, history, toHex_eq, selected, Option.map_some, setResult_reset identified]

namespace Sample

def tagged (hex : Bytes) : Json := .obj [(text "transaction", .str (idOf 50)), (text "data", .str hex)]

def taggedLabels : List Label :=
  [⟨.start, none⟩, ⟨.balance (reply (.obj [(text "count_txs", .int 2)])) 0 [], none⟩,
    ⟨.page (reply (.arr [tagged (text "6869"), transaction (idOf 97)])) [], none⟩]

theorem tagged_runs :
    (runAllowed (step config) WellFormed .initial taggedLabels).map
      (fun st => (decide (st.phase = .down), st.log.get address, st.log.get (idOf 50), st.log.get (idOf 97))) =
        some (false, some (stringify (.arr (jsonIds [idOf 50, idOf 97]))), some (stringify (tagged (text "6869"))),
          some (stringify (transaction (idOf 97)))) := by decide +kernel

def query : Json :=
  .obj [(text "jsonrpc", .str (text "2.0")), (text "id", .int 7), (text "method", .str (text "fetch-transaction")),
    (text "params", .obj [(text "address", .str address), (text "data", .str (text "hi"))])]

def queries : Backend where
  parse := readPlain
  useLocalDatabase := false
  validateMethods := false
  methodsSchema := none

theorem accept_query : accept queries (writePlain query) = .ok (query, 7) := by decide +kernel

end Sample

theorem fetch_transaction_finds_one :
    ∃ st, Reached (step Sample.config) WellFormed .initial st ∧
      fetchTransaction Sample.queries true Sample.sha256 Sample.jsonCodec st (writePlain Sample.query) =
        some (resultReply (.int 7) (.arr [Sample.tagged (text "6869")])) := by
  obtain ⟨st, ran, outcome⟩ := Option.map_eq_some_iff.mp Sample.tagged_runs
  simp only [Prod.mk.injEq, decide_eq_false_iff_not] at outcome
  obtain ⟨running, saved, first, second⟩ := outcome
  have reached := Reached.run .start ran
  have prepared : prepareSearch true Sample.sha256 Sample.query 7 = .ok (Sample.address, text "hi") := by decide +kernel
  have lower : toLower Sample.address = Sample.address := by decide
  obtain ⟨-, -, found⟩ := fetch_transaction_searches_history Sample.config Sample.jsonCodec_lawful reached running
    Sample.queries Sample.accept_query prepared
  obtain ⟨ids, entries, parsed, -, returned, replied⟩ := found _ (by decide +kernel) (lower.symm ▸ saved)
  have wrote := Sample.jsonCodec_lawful.ids [Sample.idOf 50, Sample.idOf 97] (by decide)
  have elements := Json.arr.inj (Except.ok.inj (parsed.symm.trans wrote))
  obtain rfl : ids = [Sample.idOf 50, Sample.idOf 97] :=
    List.map_injective_iff.mpr (fun _ _ equal => Json.str.inj equal) elements
  have entry {id bytes : Bytes} {read v : Json} (stored : st.log.get id = some bytes)
      (parsed : Sample.jsonCodec.parse bytes = .ok read) (returned : Returned Sample.jsonCodec st.log id v) :
      v = read := by
    obtain ⟨element, kept, -, readBack⟩ := returned
    rw [stored] at kept
    cases kept
    exact Except.ok.inj (readBack.symm.trans parsed)
  cases returned with
  | cons one rest =>
      cases rest with
      | cons other rest =>
          cases rest
          obtain rfl : _ = Sample.tagged (text "6869") := entry first (by decide +kernel) one
          obtain rfl : _ = Sample.transaction (Sample.idOf 97) := entry second (by decide +kernel) other
          have textual : ∀ v ∈ [Sample.tagged (text "6869"), Sample.transaction (Sample.idOf 97)], Textual v := by
            simp only [List.mem_cons, List.not_mem_nil, or_false, forall_eq_or_imp, forall_eq]
            refine ⟨fun d found => ⟨text "6869", (Option.some.inj found).symm⟩, fun d found => ?_⟩
            have none : (Sample.transaction (Sample.idOf 97)).get (text "data") = none := by decide
            exact absurd (none.symm.trans found) (by simp)
          have selected : [Sample.tagged (text "6869"), Sample.transaction (Sample.idOf 97)].filter
              (hasData (StringUtils.bin2hex (text "hi"))) = [Sample.tagged (text "6869")] := by decide +kernel
          exact ⟨st, reached, (replied textual).trans (by rw [selected]; rfl)⟩

end FullnodeClient.History
