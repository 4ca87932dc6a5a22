import FullnodeClient.Rpc.Handler

/-!
# Upstream replies in the envelope of the node

`base_network_handler::on_complete` copies the members of an upstream reply into the document that has the
id. Which members are skipped is decided by length and bytes; a member is written under its name up to the
first zero byte.
-/

namespace FullnodeClient.Rpc
open FullnodeClient.Lib FullnodeClient.Text

namespace Backend

variable {name : Bytes} {writer : Json} {members : List (Bytes × Json)}

def withOutcome (members : List (Bytes × Json)) (writer : Json) : Json :=
  match (Json.obj members).get (text "error"), (Json.obj members).get (text "result") with
  | some error, _ => Writer.setErrorValue error writer
  | none, some result => Writer.setResult result writer
  | none, none => writer

theorem processResponse_get (object : writer.isObject = true) :
    (processResponse members writer).get name =
      (written name members).getLast?.or ((withOutcome members writer).get name) := by
  refine copyMembers_get ?_
  cases writer with
  | obj ms =>
      split <;> rfl
  | _ => cases object

theorem reset_get_outcome (doc : Json) :
    (Writer.reset doc).get (text "error") = none ∧ (Writer.reset doc).get (text "result") = none := by
  constructor <;> rfl

theorem reset_set_get (field : Bytes) (value doc : Json) :
    ((Writer.reset doc).set field value).get name = if name = field then some value else (Writer.reset doc).get name := by
  by_cases same : name = field
  · rw [if_pos same, same, Json.get_set_self]
  · rw [if_neg same]
    exact Json.get_set_of_ne (Ne.symm same)

theorem withOutcome_reset (members : List (Bytes × Json)) (doc : Json) :
    (withOutcome members (Writer.reset doc)).get name =
      if name = text "error" then (Json.obj members).get (text "error")
      else if name = text "result" then
        if ((Json.obj members).get (text "error")).isSome then none else (Json.obj members).get (text "result")
      else (Writer.reset doc).get name := by
  obtain ⟨noError, noResult⟩ := reset_get_outcome doc
  have distinct : text "error" ≠ text "result" := by decide
  unfold withOutcome
  by_cases isError : name = text "error"
  · subst isError
    cases (Json.obj members).get (text "error") with
    | some error => simp [Writer.setErrorValue]
    | none => cases (Json.obj members).get (text "result") <;> simp [Writer.setResult, reset_set_get, distinct, noError]
  · by_cases isResult : name = text "result"
    · subst isResult
      cases (Json.obj members).get (text "error") with
      | some error => simp [Writer.setErrorValue, reset_set_get, isError, noResult]
      | none => cases (Json.obj members).get (text "result") <;> simp [Writer.setResult, isError, noResult]
    · cases (Json.obj members).get (text "error") with
      | some error => simp [Writer.setErrorValue, reset_set_get, isError, isResult]
      | none =>
          cases (Json.obj members).get (text "result") <;>
            simp [Writer.setResult, reset_set_get, isError, isResult]

theorem processResponse_reset_get (members : List (Bytes × Json)) (doc : Json) :
    (processResponse members (Writer.reset doc)).get name =
      (written name members).getLast?.or ((withOutcome members (Writer.reset doc)).get name) :=
  processResponse_get rfl

theorem cStr_eq_of_length {s : Bytes} (length : (cStr s).length = s.length) : cStr s = s :=
  (List.takeWhile_prefix _).eq_of_length length

theorem isServiceField_iff : isServiceField name = true ↔ name ∈ serviceFields := by
  simp only [isServiceField, List.any_eq_true, Bool.and_eq_true, decide_eq_true_eq]
  constructor
  · rintro ⟨field, member, length, same⟩
    rw [same] at length member
    exact cStr_eq_of_length length ▸ member
  · intro member
    have whole : cStr name = name := by
      have all : ∀ field ∈ serviceFields, cStr field = field := by decide
      exact all name member
    exact ⟨name, member, rfl, whole.symm⟩

theorem mem_written {value : Json} : value ∈ written name members ↔
    ∃ member ∈ members, cStr member.1 = name ∧ member.1 ∉ serviceFields ∧ member.2 = value := by
  simp only [written, List.mem_map, List.mem_filter, Bool.and_eq_true, decide_eq_true_eq, Bool.not_eq_true',
    ← isServiceField_iff, Bool.not_eq_true, and_assoc]

theorem written_of_zero (inside : 0 ∈ name) : written name members = [] := by
  refine List.eq_nil_iff_forall_not_mem.mpr fun value found => ?_
  obtain ⟨member, -, rfl, -⟩ := mem_written.mp found
  exact zero_not_mem_cStr _ inside

theorem written_of_service (plain : ∀ member ∈ members, 0 ∉ member.1) (service : name ∈ serviceFields) :
    written name members = [] := by
  refine List.eq_nil_iff_forall_not_mem.mpr fun value found => ?_
  obtain ⟨member, inside, named, other, -⟩ := mem_written.mp found
  rw [cStr_eq_self (plain member inside)] at named
  exact other (named ▸ service)

structure Envelope (id : Json) (members : List (Bytes × Json)) (reply : Json) : Prop where
  id : reply.get (text "id") = some id
  error : reply.get (text "error") = (Json.obj members).get (text "error")
  result : reply.get (text "result") =
    if ((Json.obj members).get (text "error")).isSome then none else (Json.obj members).get (text "result")
  carried : ∀ member ∈ members, member.1 ∉ serviceFields → reply.get member.1 = some member.2

structure Undisturbing (members : List (Bytes × Json)) : Prop where
  plain : ∀ member ∈ members, 0 ∉ member.1
  single : ∀ member ∈ members, ∀ other ∈ members, member.1 = other.1 → member.1 ∉ serviceFields → member.2 = other.2

theorem reset_get_of_zero (inside : 0 ∈ name) (doc : Json) : (Writer.reset doc).get name = none := by
  have other (field : Bytes) (plain : 0 ∉ field) : field ≠ name := fun same => plain (same ▸ inside)
  simp [Writer.reset, Json.get, other (text "jsonrpc") (by decide), other (text "id") (by decide)]

-- A name with a zero byte is cut when it is written, so nothing is found under the name itself.
theorem plain_of_carried {doc : Json} (carried : ∀ member ∈ members, member.1 ∉ serviceFields →
    (processResponse members (Writer.reset doc)).get member.1 = some member.2) : ∀ member ∈ members, 0 ∉ member.1 := by
  intro member inside zero
  have other : member.1 ∉ serviceFields := by
    have all : ∀ field ∈ serviceFields, 0 ∉ field := by decide
    exact fun service => all _ service zero
  have found := carried member inside other
  have noError : member.1 ≠ text "error" := fun same => other (same ▸ by decide)
  have noResult : member.1 ≠ text "result" := fun same => other (same ▸ by decide)
  rw [processResponse_reset_get, written_of_zero zero, withOutcome_reset, if_neg noError, if_neg noResult,
    reset_get_of_zero zero] at found
  cases found

theorem Undisturbing.carries (quiet : Undisturbing members) {member : Bytes × Json} (inside : member ∈ members)
    (service : member.1 ∉ serviceFields) (doc : Json) :
    (processResponse members (Writer.reset doc)).get member.1 = some member.2 := by
  have found : member.2 ∈ written member.1 members :=
    mem_written.mpr ⟨member, inside, cStr_eq_self (quiet.plain member inside), service, rfl⟩
  obtain ⟨value, last⟩ := Option.ne_none_iff_exists'.mp (mt List.getLast?_eq_none_iff.mp (List.ne_nil_of_mem found))
  obtain ⟨other, inside', same, service', rfl⟩ := mem_written.mp (List.mem_of_getLast? last)
  rw [cStr_eq_self (quiet.plain other inside')] at same
  rw [processResponse_reset_get, last, quiet.single member inside other inside' same.symm service]
  rfl

theorem reply_envelope_iff (backend : Backend) (handler : Handler) (params response : Bytes) (doc id : Json)
    (members : List (Bytes × Json)) (asked : backend.parse params = .ok doc) (named : doc.get (text "id") = some id)
    (answered : backend.parse response = .ok (.obj members)) (outcome : hasOutcome (.obj members) = true) :
    Envelope id members (backend.reply handler params [.response response]) ↔
      (id = .null ∨ ∃ n, id = .int n ∧ 0 < n ∧ n < 2 ^ 32) ∧ Undisturbing members := by
  let writer := backend.reply handler params []
  have has : HasId (preparedId doc) writer := reply_hasId handler asked []
  have completes : backend.reply handler params [.response response] = processResponse members (Writer.reset writer) := by
    show backend.onComplete response writer = _
    simp only [onComplete, answered, if_pos outcome]
  have idBefore : (withOutcome members (Writer.reset writer)).get (text "id") = some (preparedId doc) := by
    rw [withOutcome_reset, if_neg (by decide), if_neg (by decide), Writer.reset_get_id, has.2, Option.getD_some]
  rw [completes, ← preparedId_eq_self_iff named]
  constructor
  · intro kept
    have plain := plain_of_carried kept.carried
    refine ⟨?_, plain, ?_⟩
    · have same := kept.id
      rw [processResponse_reset_get, written_of_service plain (by decide), idBefore] at same
      exact Option.some.inj same
    · intro member inside other inside' same service
      have first := kept.carried member inside service
      have second := kept.carried other inside' (same ▸ service)
      rw [same, second] at first
      exact (Option.some.inj first).symm
  · rintro ⟨prepared, quiet⟩
    refine ⟨?_, ?_, ?_, fun member inside service => quiet.carries inside service writer⟩
    · rw [processResponse_reset_get, written_of_service quiet.plain (by decide), idBefore, prepared]
      rfl
    · rw [processResponse_reset_get, written_of_service quiet.plain (by decide), withOutcome_reset]
      rfl
    · rw [processResponse_reset_get, written_of_service quiet.plain (by decide), withOutcome_reset]
      rfl

namespace Sample

def relay : Handler where
  prepareParams _ _ := ⟨[], .ok (true, false)⟩
  execute _ := ⟨[], none⟩

def relayed : List (Bytes × Json) := [(text "id", .int 1), (text "result", .str (text "ok")), (text "took", .int 3)]

theorem read_relayed : plain.parse (writePlain (.obj relayed)) = .ok (.obj relayed) := by decide +kernel

def zeroByte : Bytes := text "\x7b\"result\":1,\"id\\u0000\":5\x7d"

-- The text with the escape is read as JSON texts are.
def escaping : Backend :=
  { plain with
    parse := fun body =>
      if body = zeroByte then .ok (.obj [(text "result", .int 1), (text "id" ++ [0], .int 5)]) else readPlain body }

end Sample

theorem reply_envelope_of_balance :
    Envelope (.int 7) Sample.relayed
      (Sample.plain.reply Sample.relay Batch.Sample.lastTxs [.response (writePlain (.obj Sample.relayed))]) := by
  have read : Sample.plain.parse Batch.Sample.lastTxs = .ok (Batch.Sample.identified (.int 7) "get-last-txs") := by
    decide +kernel
  have distinct : (Sample.relayed.map Prod.fst).Nodup := by decide
  have quiet : Undisturbing Sample.relayed := ⟨by decide, fun _ inside _ inside' same _ =>
    congrArg Prod.snd (List.inj_on_of_nodup_map distinct inside inside' same)⟩
  exact (reply_envelope_iff _ Sample.relay _ _ _ (.int 7) _ read rfl Sample.read_relayed rfl).mpr
    ⟨.inr ⟨7, rfl, by decide, by decide⟩, quiet⟩

theorem reply_envelope_with_zero_byte :
    (Sample.escaping.reply Sample.relay Batch.Sample.lastTxs [.response Sample.zeroByte]).get (text "id") =
      some (.int 5) := by
  decide +kernel

end Backend

end FullnodeClient.Rpc
