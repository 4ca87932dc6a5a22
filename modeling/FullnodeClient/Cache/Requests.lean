import FullnodeClient.Cache.Extras
import FullnodeClient.Lib.JsonText

/-!
# Requests for extra blocks

The text of the requests of `load_extra_blocks`, read as JSON, and what the passes of the loop ask for
altogether.
-/

namespace FullnodeClient.Cache
open FullnodeClient.Lib FullnodeClient.Text

def requestHead : Bytes :=
  text "\x7b\"id\":1, \"version\":\"2.0\", \"method\":\"get-dumps-blocks-by-hash\", \"params\":\x7b\"compress\":true, \"hashes\":["

def requestBody (recvCount : Nat) (hashes : List (List Bytes)) : Bytes :=
  requestHead ++ (buildRequest recvCount true hashes 0).1 ++ text "]\x7d\x7d"

def stringItem : JsonText.Tree → Option Bytes
  | .string raw => some raw
  | _ => none

def requestedHashes (body : Bytes) : Option (List Bytes) := do
  let tree ← JsonText.parse body
  let params ← tree.get (text "params")
  match ← params.get (text "hashes") with
  | .array items => items.mapM stringItem
  | _ => none

def requestStack : List JsonText.Frame :=
  [.object [(text "compress", .bool true)] (text "hashes"),
    .object [(text "id", .number (text "1")), (text "version", .string (text "2.0")),
      (text "method", .string (text "get-dumps-blocks-by-hash"))] (text "params")]

set_option maxRecDepth 8000 in
theorem run_requestHead : JsonText.run JsonText.start requestHead = some ⟨.firstItem, requestStack⟩ := by
  rfl

theorem mapM_stringItem (raws : List Bytes) : (raws.map JsonText.Tree.string).mapM stringItem = some raws := by
  induction raws with
  | nil => rfl
  | cons raw raws ih => simp [stringItem, ih]

theorem bin2hex_plain (hash : Bytes) : ∀ c ∈ StringUtils.bin2hex hash, JsonText.IsPlain c := by
  intro c member
  obtain ⟨d, small, rfl⟩ := bin2hex_digit member
  have plain : ∀ d < 16, 32 ≤ hexDigit d ∧ hexDigit d ≠ 34 ∧ hexDigit d ≠ 92 := by decide
  exact plain d small

theorem requestItem_true (hash : Bytes) : requestItem true hash = JsonText.quote (StringUtils.bin2hex hash) := rfl

theorem requestItem_false (hash : Bytes) :
    requestItem false hash = 44 :: JsonText.quote (StringUtils.bin2hex hash) := rfl

def requestTree (raws : List Bytes) : JsonText.Tree :=
  .object [(text "id", .number (text "1")), (text "version", .string (text "2.0")),
    (text "method", .string (text "get-dumps-blocks-by-hash")),
    (text "params", .object [(text "compress", .bool true), (text "hashes", .array (raws.map .string))])]

def withItems (items : Bytes) : Bytes := requestHead ++ items ++ text "]\x7d\x7d"

theorem parse_withItems (items : Bytes) :
    JsonText.parse (withItems items) = (((JsonText.run ⟨.firstItem, requestStack⟩ items).bind fun mid =>
      JsonText.run mid (text "]\x7d\x7d")).bind JsonText.State.result) := by
  rw [JsonText.parse, withItems, List.append_assoc, JsonText.run_append, run_requestHead, Option.bind_some,
    JsonText.run_append]

theorem requestedHashes_of_tree {body : Bytes} {raws : List Bytes}
    (parsed : JsonText.parse body = some (requestTree raws)) : requestedHashes body = some raws := by
  rw [requestedHashes, parsed]
  exact mapM_stringItem raws

def Separated (blocks : List (List Bytes)) : Prop := blocks.flatten = [] ∨ ∃ hash rest, blocks = [hash] :: rest

theorem requestedHashes_separated {blocks : List (List Bytes)} (separated : Separated blocks) :
    requestedHashes (withItems (requestItems true blocks)) = some (blocks.flatten.map StringUtils.bin2hex) := by
  refine requestedHashes_of_tree ?_
  rw [parse_withItems]
  rcases separated with none | ⟨hash, rest, rfl⟩
  · have items : requestItems true blocks = [] := by
      cases blocks with
      | nil => rfl
      | cons extra rest =>
          obtain ⟨rfl, others⟩ := List.append_eq_nil_iff.mp none
          rw [requestItems, others]
          rfl
    rw [items, none]
    rfl
  · have items : requestItems true ([hash] :: rest) = JsonText.quote (StringUtils.bin2hex hash) ++
        (rest.flatten.map StringUtils.bin2hex).flatMap fun raw => 44 :: JsonText.quote raw := by
      rw [requestItems, List.flatMap_map, List.flatMap_singleton]
      rfl
    have plain : ∀ raw ∈ rest.flatten.map StringUtils.bin2hex, ∀ c ∈ raw, JsonText.IsPlain c := by
      intro raw member
      obtain ⟨hash, -, rfl⟩ := List.mem_map.mp member
      exact bin2hex_plain hash
    rw [items, JsonText.run_append, JsonText.run_firstItem (bin2hex_plain hash), Option.bind_some,
      JsonText.run_items plain]
    rfl

theorem requestedHashes_not_separated {blocks : List (List Bytes)} (crooked : ¬Separated blocks) :
    requestedHashes (withItems (requestItems true blocks)) = none := by
  obtain ⟨some, single⟩ := not_or.mp crooked
  have ran : JsonText.run ⟨.firstItem, requestStack⟩ (requestItems true blocks) = none := by
    match blocks with
    | [] => exact absurd rfl some
    | [] :: rest =>
        obtain ⟨hash, hashes, eq⟩ := List.exists_cons_of_ne_nil some
        rw [List.flatten_cons, List.nil_append] at eq
        simp only [requestItems, eq, List.flatMap_nil, List.nil_append, List.flatMap_cons, requestItem_false]
        exact JsonText.run_firstItem_comma _ _
    | [hash] :: rest => exact absurd ⟨hash, rest, rfl⟩ single
    | (hash :: second :: more) :: rest =>
        simp only [requestItems, List.flatMap_cons, requestItem_true, List.append_assoc]
        rw [JsonText.run_append, JsonText.run_firstItem (bin2hex_plain hash), Option.bind_some]
        exact JsonText.run_item_quote _ _ _
  rw [requestedHashes, parse_withItems, ran]
  rfl

inductive Requests (env : Env) : State → List Bytes → State → Prop
  | none (st : State) : Requests env st [] st
  | send {st mid st' : State} {hashes : List (List Bytes)} {bodies : List Bytes} : st.phase = .extras hashes →
      Pass env st mid → Requests env mid bodies st' →
      Requests env st (requestBody env.settings.recvCount.toNat hashes :: bodies) st'

variable {env : Env} {st st' : State} {hashes : List (List Bytes)} {bodies : List Bytes}

theorem Requests.of_not_extras (sent : Requests env st bodies st') (outside : ∀ hashes, st.phase ≠ .extras hashes) :
    bodies = [] ∧ st' = st := by
  cases sent with
  | none => exact ⟨rfl, rfl⟩
  | send here => exact absurd here (outside _)

theorem request_blocks (recvCount : Nat) (hashes : List (List Bytes)) :
    ∃ blocks, blocks <+: hashes ∧ requestBody recvCount hashes = withItems (requestItems true blocks) ∧
      (extraRequest recvCount hashes 0).1 = blocks.flatten.length := by
  rcases request_cases recvCount hashes with ⟨before, last, after, split, -, -, built, eq⟩ | ⟨-, built, eq⟩
  · refine ⟨before ++ [last], ⟨after, by simp [split]⟩, congrArg withItems built, ?_⟩
    simp [eq]
  · exact ⟨hashes, List.prefix_rfl, congrArg withItems built, by rw [eq]⟩

theorem requestedHashes_requestBody {recvCount : Nat} {raws : List Bytes}
    (valid : requestedHashes (requestBody recvCount hashes) = some raws) :
    raws.length = (extraRequest recvCount hashes 0).1 ∧
      ((extraRequest recvCount hashes 0).1 ≠ 0 → ∃ hash rest, hashes = [hash] :: rest) := by
  obtain ⟨blocks, first, body, count⟩ := request_blocks recvCount hashes
  rw [body] at valid
  by_cases separated : Separated blocks
  · rw [requestedHashes_separated separated] at valid
    refine ⟨by rw [count, ← Option.some.inj valid, List.length_map], fun sent => ?_⟩
    rcases separated with none | ⟨hash, rest, rfl⟩
    · rw [count, none] at sent
      exact absurd rfl sent
    · obtain ⟨more, rfl⟩ := first
      exact ⟨hash, rest ++ more, rfl⟩
  · rw [requestedHashes_not_separated separated] at valid
    cases valid

theorem requests_without_answer (log : Log) (carried : Carried)
    (sent : Requests env ⟨log, carried, loadExtraBlocks env.settings
      (extraRequest env.settings.recvCount.toNat hashes 0).2⟩ bodies st) :
    Requests env ⟨log, carried, .extras hashes⟩ (requestBody env.settings.recvCount.toNat hashes :: bodies) st :=
  .send rfl (pass_without_answer env log carried hashes) sent

theorem request_all {recvCount : Nat} (below : hashes.flatten.length < recvCount) :
    requestBody recvCount hashes = withItems (requestItems true hashes) ∧
      extraRequest recvCount hashes 0 = (hashes.flatten.length, []) := by
  rcases request_cases recvCount hashes with ⟨before, last, after, rfl, -, limit, -, -⟩ | ⟨-, built, eq⟩
  · simp only [List.flatten_append, List.flatten_cons, List.length_append] at below
    omega
  · exact ⟨congrArg withItems built, eq⟩

-- The block that reaches the limit is asked for again in the next pass, so the passes ask for more than
-- there is, or go on forever.
theorem requests_exceed (env : Env) (log : Log) (carried : Carried) (n : Nat)
    (counted : (extraRequest env.settings.recvCount.toNat hashes 0).1 ≠ 0)
    (full : env.settings.recvCount.toNat ≤ hashes.flatten.length) :
    ∃ bodies st, Requests env ⟨log, carried, .extras hashes⟩ bodies st ∧
      ∀ asked : List (List Bytes), bodies.map requestedHashes = asked.map some →
        hashes.flatten.length < asked.flatten.length ∨ n ≤ asked.flatten.length := by
  induction n generalizing hashes with
  | zero => exact ⟨[], _, .none _, fun asked _ => .inr (Nat.zero_le _)⟩
  | succ n ih =>
      rcases request_cases env.settings.recvCount.toNat hashes with
        ⟨before, last, after, split, fewer, limit, -, eq⟩ | ⟨rfl | fewer, -, eq⟩
      · have total : hashes.flatten.length = before.flatten.length + (last :: after).flatten.length := by
          rw [split, List.flatten_append, List.length_append]
        have some : 0 < last.length := by
          rw [eq] at counted
          rcases fewer with rfl | fewer
          · simp only [List.flatten_nil, List.length_nil, Nat.zero_add] at counted
            exact Nat.pos_of_ne_zero counted
          · omega
        have again : (extraRequest env.settings.recvCount.toNat (last :: after) 0).1 ≠ 0 := by
          have := head_le_requested env.settings.recvCount.toNat last after
          omega
        have sent {bodies : List Bytes} {st : State}
            (sent : Requests env ⟨log, carried, .extras (last :: after)⟩ bodies st) :
            Requests env ⟨log, carried, .extras hashes⟩
              (requestBody env.settings.recvCount.toNat hashes :: bodies) st := by
          refine requests_without_answer log carried ?_
          rwa [eq, loadExtraBlocks_sent (List.cons_ne_nil _ _) again]
        by_cases more : env.settings.recvCount.toNat ≤ (last :: after).flatten.length
        · obtain ⟨bodies, st, others, exceed⟩ := ih again more
          refine ⟨_, st, sent others, fun asked same => ?_⟩
          obtain ⟨raws, asked, rfl, valid, same⟩ := List.map_eq_cons_iff.mp same.symm
          have length := (requestedHashes_requestBody valid.symm).1
          rw [eq] at length
          rw [List.flatten_cons, List.length_append]
          rcases exceed asked same.symm with exceeds | long <;> omega
        · have below := not_le.mp more
          refine ⟨_, _, sent (requests_without_answer log carried (.none _)), fun asked same => .inl ?_⟩
          obtain ⟨raws, asked, rfl, valid, same⟩ := List.map_eq_cons_iff.mp same.symm
          obtain ⟨raws', asked, rfl, valid', same⟩ := List.map_eq_cons_iff.mp same
          have length := (requestedHashes_requestBody valid.symm).1
          have length' := (requestedHashes_requestBody valid'.symm).1
          rw [eq] at length
          rw [(request_all below).2] at length'
          rw [List.flatten_cons, List.flatten_cons, List.length_append, List.length_append]
          omega
      · exact absurd rfl counted
      · omega

theorem unsent_valid {recvCount : Nat} (unsent : (extraRequest recvCount hashes 0).1 = 0) :
    requestedHashes (requestBody recvCount hashes) = some [] := by
  obtain ⟨blocks, -, body, count⟩ := request_blocks recvCount hashes
  have none : blocks.flatten = [] := List.length_eq_zero_iff.mp (count.symm.trans unsent)
  rw [body, requestedHashes_separated (.inl none), none, List.map_nil]

theorem Pass.last {mid : State} (passed : Pass env st mid) (here : st.phase = .extras hashes)
    (all : (extraRequest env.settings.recvCount.toNat hashes 0).2 = []) (rest : List (List Bytes)) :
    mid.phase ≠ .extras rest := by
  intro again
  exact ((passed.ends here).extras again).2 all

def Coverable (recvCount : Nat) (hashes : List (List Bytes)) : Prop :=
  hashes.flatten = [] ∨ (∃ hash rest, hashes = [hash] :: rest) ∧ hashes.flatten.length < recvCount

def Covers (hashes : List (List Bytes)) (bodies : List Bytes) (phase : Phase) : Prop :=
  ∃ asked : List (List Bytes), bodies.map requestedHashes = asked.map some ∧
    (∀ raws ∈ asked, ∃ blocks, blocks <:+: hashes ∧ raws = blocks.flatten.map StringUtils.bin2hex) ∧
    asked.flatten.Subperm (hashes.flatten.map StringUtils.bin2hex) ∧
    ((∀ rest, phase ≠ .extras rest) → asked.flatten.Perm (hashes.flatten.map StringUtils.bin2hex))

theorem covers_of_coverable (coverable : Coverable env.settings.recvCount.toNat hashes) (log : Log)
    (carried : Carried) (sent : Requests env ⟨log, carried, loadExtraBlocks env.settings hashes⟩ bodies st) :
    Covers hashes bodies st.phase := by
  rcases coverable with none | ⟨⟨hash, rest, first⟩, below⟩
  · have unsent : (extraRequest env.settings.recvCount.toNat hashes 0).1 = 0 := by
      obtain ⟨blocks, inside, -, count⟩ := request_blocks env.settings.recvCount.toNat hashes
      have := flatten_length_le_of_prefix inside
      rw [none, List.length_nil] at this
      omega
    have idle : loadExtraBlocks env.settings hashes = .idle := if_pos (.inr unsent)
    rw [idle] at sent
    obtain ⟨rfl, rfl⟩ := sent.of_not_extras fun _ => Phase.noConfusion
    exact ⟨[], rfl, by simp, by simp, by simp [none]⟩
  · obtain ⟨body, eq⟩ := request_all below
    have some : hashes ≠ [] := by simp [first]
    have loaded : loadExtraBlocks env.settings hashes = .extras hashes := by
      refine loadExtraBlocks_sent some ?_
      rw [eq, first]
      simp
    rw [loaded] at sent
    cases sent with
    | none => exact ⟨[], rfl, by simp, by simp, fun outside => absurd rfl (outside hashes)⟩
    | send here passed others =>
        cases here
        obtain ⟨rfl, rfl⟩ := others.of_not_extras (passed.last rfl (by rw [eq]))
        have valid := requestedHashes_separated (.inr ⟨hash, rest, first⟩)
        rw [← body] at valid
        refine ⟨[hashes.flatten.map StringUtils.bin2hex], by simp [valid], ?_, ?_, ?_⟩
        · intro raws member
          exact ⟨hashes, List.infix_rfl, List.mem_singleton.mp member⟩
        · rw [List.flatten_singleton]
        · intro _
          rw [List.flatten_singleton]

theorem requests_cover_iff (env : Env) (hashes : List (List Bytes)) :
    ((∀ rest, rest <:+ hashes → (extraRequest env.settings.recvCount.toNat rest 0).1 = 0 →
        requestedHashes (requestBody env.settings.recvCount.toNat rest) = some []) ∧
      ∀ log carried bodies st, Requests env ⟨log, carried, loadExtraBlocks env.settings hashes⟩ bodies st →
        Covers hashes bodies st.phase) ↔
    Coverable env.settings.recvCount.toNat hashes := by
  constructor
  · rintro ⟨-, covers⟩
    by_cases none : hashes.flatten = []
    · exact .inl none
    have some : hashes ≠ [] := by
      rintro rfl
      exact none rfl
    have counted : (extraRequest env.settings.recvCount.toNat hashes 0).1 ≠ 0 := by
      intro unsent
      have idle : loadExtraBlocks env.settings hashes = .idle := if_pos (.inr unsent)
      obtain ⟨asked, same, -, -, all⟩ := covers [] .initial [] _ (.none _)
      rw [List.map_nil] at same
      rw [List.map_eq_nil_iff.mp same.symm] at all
      exact none (List.map_eq_nil_iff.mp (all (idle ▸ fun _ => Phase.noConfusion)).nil_eq.symm)
    rw [loadExtraBlocks_sent some counted] at covers
    refine .inr ⟨?_, ?_⟩
    · obtain ⟨asked, same, -⟩ := covers [] .initial _ _ (requests_without_answer [] .initial (.none _))
      obtain ⟨raws, asked, rfl, valid, -⟩ := List.map_eq_cons_iff.mp same.symm
      exact (requestedHashes_requestBody valid.symm).2 counted
    · by_contra full
      obtain ⟨bodies, st, sent, exceed⟩ :=
        requests_exceed env [] .initial (hashes.flatten.length + 1) counted (not_lt.mp full)
      obtain ⟨asked, same, -, once, -⟩ := covers _ _ _ _ sent
      have length := once.length_le
      rw [List.length_map] at length
      rcases exceed asked same with exceeds | long <;> omega
  · intro coverable
    exact ⟨fun rest _ => unsent_valid, fun log carried bodies st => covers_of_coverable coverable log carried⟩

theorem request_begins_with_separator :
    let env : Env := ⟨⟨fun _ => none, id⟩, ⟨[], true, 1, 100, 5⟩⟩
    let hashes : List (List Bytes) := [[], [Sample.hashOf 1]]
    loadExtraBlocks env.settings hashes = .extras hashes ∧
      JsonText.parse (requestBody env.settings.recvCount.toNat hashes) = none := by
  refine ⟨rfl, (parse_withItems _).trans ?_⟩
  have items : (buildRequest 100 true [[], [Sample.hashOf 1]] 0).1 =
      44 :: JsonText.quote (StringUtils.bin2hex (Sample.hashOf 1)) := rfl
  rw [show UInt32.toNat 100 = 100 from rfl, items, JsonText.run_firstItem_comma]
  rfl

end FullnodeClient.Cache
