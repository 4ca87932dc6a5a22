import FullnodeClient.Cache.Walk
import FullnodeClient.Handlers.BlockJson

/-!
# Blocks from the cache by number and by hash

`get_block_base::execute` while the cache runs. The request by hash takes the number of the block from
the text of the hash, not from the index.
-/

namespace FullnodeClient.Handlers
open FullnodeClient.Lib FullnodeClient.Text FullnodeClient.Rpc
open FullnodeClient.Cache (Log atoi getBlockByNum getBlockByHash getExtraBlockFor)

inductive BlockId
  | number (n : Nat)
  | hash (h : Bytes)

namespace BlockId

def getBlockId : BlockId → Bytes
  | number n => decimal n
  | hash h => h

def blockNumber : BlockId → Nat
  | number n => n
  | hash h => atoi h

def lookup (log : Log) (verify : Bool) : BlockId → Option Bytes
  | number n => getBlockByNum log (decimal n) verify
  | hash h => (getBlockByHash log h verify).map Prod.snd

end BlockId

/-- `verify` is the default argument `blocks_cache_block_verification`. -/
structure Settings where
  allowStateBlocks : Bool
  verify : Bool

def extraTxs (lib : Library) (log : Log) (number : Nat) : Except Thrown AnyTxInfo :=
  match getExtraBlockFor log number with
  | none => .ok (.transactions [])
  | some dump => (lib.parseBlockDump dump).map fun
      | .signBlock _ txs => .signTransactions txs
      | _ => .transactions []

def numbered (b : Block) (number : Nat) : Block :=
  { b with header := { b.header with blockNumber := some number, countTxs := b.txs.length } }

def stateBlockIgnored (id : BlockId) : Bytes :=
  text "The block " ++ id.getBlockId ++ text " is a state block and has been ignored"

def buildReply (lib : Library) (log : Log) (type : Nat) (doc : Json) (b : Block) (number : Nat) : Except Thrown Json := do
  let txs ← extraTxs lib log number
  if type = 0 ∨ type = 4 then blockHeaderToJson lib (numbered b number).header txs .V1 doc
  else blockInfoToJson lib (numbered b number) txs type .V1 doc

def executeBody (lib : Library) (settings : Settings) (log : Log) (type : Nat) (doc : Json) (id : BlockId) :
    Except Thrown Json :=
  match id.lookup log settings.verify with
  | none => .error (invalidParam "The block does not exists or has not signed yet")
  | some dump => do
      match ← lib.parseBlockDump dump with
      | .block b =>
          if !settings.allowStateBlocks && lib.isStateBlock b.header.blockType then
            return genErrorResponse (-32603) (stateBlockIgnored id) (Writer.reset doc)
          else buildReply lib log type (Writer.reset doc) b id.blockNumber
      | _ => throw (invalidParam "Incorrect block type")

/-- The document of `BGN_TRY .. END_TRY` around a body. -/
def caught (doc : Json) : Except Thrown Json → Json
  | .ok reply => reply
  | .error thrown => endTry doc thrown

def execute (lib : Library) (settings : Settings) (log : Log) (type : Nat) (doc : Json) (id : BlockId) : Json :=
  caught doc (executeBody lib settings log type doc id)

/-! ## Replies for a number -/

section

variable {lib : Library} {settings : Settings} {log : Log} {type : Nat} {doc : Json} {b : Block}

-- Only the formats 1 and 2 show transactions, and every transaction that is shown needs a hash.
inductive Unshown (lib : Library) (type : Nat) : List Transaction → Thrown → Prop
  | blank {tx : Transaction} {txs : List Transaction} :
      type = 1 ∨ type = 2 → tx ∈ txs → tx.hash = [] → Unshown lib type txs (notInitialized lib)
  | blankFirst {tx : Transaction} {txs : List Transaction} :
      ¬(type = 1 ∨ type = 2) → tx.hash = [] → Unshown lib type (tx :: txs) (notInitialized lib)
  | format {tx : Transaction} {txs : List Transaction} :
      ¬(type = 1 ∨ type = 2) → tx.hash ≠ [] → Unshown lib type (tx :: txs) .unknown

def ReadsExtra (lib : Library) (log : Log) (number : Nat) : Prop :=
  ∀ dump ∈ getExtraBlockFor log number, ∃ block, lib.parseBlockDump dump = .ok block

inductive Fails (lib : Library) (log : Log) (type : Nat) (b : Block) (number : Nat) : Int × Bytes → Prop
  | extra {dump : Bytes} {thrown : Thrown} :
      getExtraBlockFor log number = some dump → lib.parseBlockDump dump = .error thrown →
        Fails lib log type b number thrown.error
  | zero : ReadsExtra lib log number → number = 0 → Fails lib log type b number (-32603, zeroNumber)
  | blockType {thrown : Thrown} :
      ReadsExtra lib log number → number ≠ 0 → lib.getBlockType b.header.blockType = .error thrown →
        Fails lib log type b number thrown.error
  | txs {name : Bytes} {thrown : Thrown} :
      ReadsExtra lib log number → number ≠ 0 → lib.getBlockType b.header.blockType = .ok name →
        ¬(type = 0 ∨ type = 4) → Unshown lib type b.txs thrown → Fails lib log type b number thrown.error

abbrev idOf (doc : Json) : Json := (doc.get (text "id")).getD .null

theorem signaturesToJson_extraTxs {number : Nat} {txs : AnyTxInfo} (bh : BlockHeader) (version : JsonVersion)
    (extra : extraTxs lib log number = .ok txs) : ∃ signs, signaturesToJson lib bh version txs = .ok signs := by
  cases txs with
  | signTransactions txs => exact ⟨_, rfl⟩
  | transactions txs =>
      suffices txs = [] from ⟨[], this ▸ rfl⟩
      unfold extraTxs at extra
      split at extra
      case h_1 => cases extra; rfl
      case h_2 dump _ =>
        cases parsed : lib.parseBlockDump dump with
        | error thrown => rw [parsed] at extra; cases extra
        | ok block =>
            rw [parsed] at extra
            cases block <;> cases extra <;> rfl

theorem headerMembers_number {bh : BlockHeader} {txs : AnyTxInfo} {signs : List Json} {name : Bytes} {number : Nat}
    (numbered : bh.blockNumber = some number) (known : lib.getBlockType bh.blockType = .ok name)
    (signed : signaturesToJson lib bh .V1 txs = .ok signs) :
    ∃ members, headerMembers lib bh txs .V1 = .ok members ∧
      ∀ more, (Json.obj (members ++ more)).get (text "number") = some (.int number) := by
  refine ⟨_, by rw [headerMembers, numbered, known, signed]; rfl, fun more => ?_⟩
  rfl

theorem transactionInfoToJson_ok {tx : Transaction} {bh : BlockHeader} {name : Bytes} (format : type = 1 ∨ type = 2)
    (known : lib.getBlockType bh.blockType = .ok name) (hashed : tx.hash ≠ []) (version : JsonVersion) :
    ∃ shown, transactionInfoToJson lib tx bh type version = .ok shown := by
  unfold transactionInfoToJson
  rw [if_neg hashed]
  rcases format with rfl | rfl
  · exact ⟨_, rfl⟩
  · rw [if_pos rfl, known]
    exact ⟨_, rfl⟩

section
variable {txs : List Transaction} {bh : BlockHeader} {name : Bytes}

theorem Unshown.mapM {thrown : Thrown} (unshown : Unshown lib type txs thrown)
    (known : lib.getBlockType bh.blockType = .ok name) (version : JsonVersion) :
    (txs.mapM fun tx => transactionInfoToJson lib tx bh type version) = .error thrown := by
  cases unshown with
  | blankFirst format blank => rw [List.mapM_cons, transactionInfoToJson, if_pos blank]; rfl
  | format format hashed =>
      obtain ⟨one, two⟩ := not_or.mp format
      rw [List.mapM_cons, transactionInfoToJson, if_neg hashed, if_neg two, if_neg one]
      rfl
  | @blank tx _ format member blank =>
      induction txs with
      | nil => cases member
      | cons first txs ih =>
          rw [List.mapM_cons]
          by_cases empty : first.hash = []
          · rw [transactionInfoToJson, if_pos empty]
            rfl
          · obtain ⟨shown, ok⟩ := transactionInfoToJson_ok format known empty version
            have later : tx ∈ txs := (List.mem_cons.mp member).resolve_left fun same => empty (same ▸ blank)
            rw [ok, ih later]
            rfl

theorem mapM_of_shown (shown : ∀ thrown, ¬Unshown lib type txs thrown)
    (known : lib.getBlockType bh.blockType = .ok name) (version : JsonVersion) :
    ∃ jsons, (txs.mapM fun tx => transactionInfoToJson lib tx bh type version) = .ok jsons := by
  induction txs with
  | nil => exact ⟨[], rfl⟩
  | cons first txs ih =>
      have format : type = 1 ∨ type = 2 := by
        by_contra other
        by_cases empty : first.hash = []
        · exact shown _ (.blankFirst other empty)
        · exact shown _ (.format other empty)
      have hashed (tx : Transaction) (member : tx ∈ first :: txs) : tx.hash ≠ [] := fun empty =>
        shown _ (.blank format member empty)
      obtain ⟨json, ok⟩ := transactionInfoToJson_ok format known (hashed first List.mem_cons_self) version
      have rest (thrown : Thrown) : ¬Unshown lib type txs thrown := by
        rintro (⟨-, member, empty⟩ | ⟨other, -⟩ | ⟨other, -⟩)
        · exact hashed _ (List.mem_cons_of_mem _ member) empty
        · exact other format
        · exact other format
      obtain ⟨jsons, built⟩ := ih rest
      exact ⟨json :: jsons, by rw [List.mapM_cons, ok, built]; rfl⟩

end

theorem ReadsExtra.buildReply {number : Nat} (reads : ReadsExtra lib log number) (type : Nat) (b : Block) :
    ∃ txs, (∀ bh version, ∃ signs, signaturesToJson lib bh version txs = .ok signs) ∧
      ∀ doc, buildReply lib log type doc b number =
        if type = 0 ∨ type = 4 then blockHeaderToJson lib (numbered b number).header txs .V1 doc
        else blockInfoToJson lib (numbered b number) txs type .V1 doc := by
  obtain ⟨txs, extra⟩ : ∃ txs, extraTxs lib log number = .ok txs := by
    unfold extraTxs
    cases stored : getExtraBlockFor log number with
    | none => exact ⟨_, rfl⟩
    | some dump =>
        obtain ⟨block, parsed⟩ := reads dump stored
        dsimp only
        rw [parsed]
        exact ⟨_, rfl⟩
  refine ⟨txs, fun bh version => signaturesToJson_extraTxs bh version extra, fun doc => ?_⟩
  rw [Handlers.buildReply, extra]
  rfl

theorem numbered_ne_zero {number : Nat} (nonzero : number ≠ 0) : (numbered b number).header.blockNumber ≠ some 0 := by
  simpa [numbered] using nonzero

theorem Fails.reply {number : Nat} {error : Int × Bytes} (fails : Fails lib log type b number error) (doc : Json) :
    caught doc (buildReply lib log type (Writer.reset doc) b number) = errorReply (idOf doc) error := by
  cases fails with
  | @extra dump thrown stored unread =>
      rw [buildReply, extraTxs, stored]
      dsimp only
      rw [unread]
      exact endTry_eq doc thrown
  | zero reads zero =>
      obtain ⟨txs, -, built⟩ := reads.buildReply type b
      rw [built]
      subst zero
      split <;> rfl
  | @blockType thrown reads nonzero unknown =>
      obtain ⟨txs, -, built⟩ := reads.buildReply type b
      have header : headerMembers lib (numbered b number).header txs .V1 = .error thrown := by
        have unknown : lib.getBlockType (numbered b number).header.blockType = .error thrown := unknown
        rw [headerMembers, unknown]
        rfl
      rw [built]
      split
      · rw [blockHeaderToJson, if_neg (numbered_ne_zero nonzero), header]
        exact endTry_eq doc thrown
      · rw [blockInfoToJson, if_neg (numbered_ne_zero nonzero), header]
        exact endTry_eq doc thrown
  | @txs name thrown reads nonzero known format unshown =>
      obtain ⟨txs, signs, built⟩ := reads.buildReply type b
      obtain ⟨signs, signed⟩ := signs (numbered b number).header .V1
      have known : lib.getBlockType (numbered b number).header.blockType = .ok name := known
      obtain ⟨members, header, -⟩ := headerMembers_number rfl known signed
      have same : (numbered b number).txs = b.txs := rfl
      rw [built, if_neg format, blockInfoToJson, if_neg (numbered_ne_zero nonzero), header, same, unshown.mapM known .V1]
      exact endTry_eq doc thrown

theorem buildReply_of_not_fails {number : Nat} (serves : ∀ error, ¬Fails lib log type b number error) (doc : Json) :
    ∃ result, result.get (text "number") = some (.int number) ∧
      caught doc (buildReply lib log type (Writer.reset doc) b number) = resultReply (idOf doc) result := by
  have reads : ReadsExtra lib log number := fun dump stored => by
    cases parsed : lib.parseBlockDump dump with
    | error thrown => exact absurd (.extra stored parsed) (serves _)
    | ok block => exact ⟨block, rfl⟩
  have nonzero : number ≠ 0 := fun zero => serves _ (.zero reads zero)
  cases known : lib.getBlockType b.header.blockType with
  | error thrown => exact absurd (.blockType reads nonzero known) (serves _)
  | ok name =>
      obtain ⟨txs, signs, built⟩ := reads.buildReply type b
      obtain ⟨signs, signed⟩ := signs (numbered b number).header .V1
      have known' : lib.getBlockType (numbered b number).header.blockType = .ok name := known
      obtain ⟨members, header, shown⟩ := headerMembers_number rfl known' signed
      rw [built]
      split
      case isTrue =>
        refine ⟨.obj members, by simpa using shown [], ?_⟩
        rw [blockHeaderToJson, if_neg (numbered_ne_zero nonzero), header]
        rfl
      case isFalse format =>
        have unshown (thrown : Thrown) : ¬Unshown lib type b.txs thrown := fun unshown =>
          serves _ (.txs reads nonzero known format unshown)
        obtain ⟨jsons, listed⟩ := mapM_of_shown unshown known' .V1
        have same : (numbered b number).txs = b.txs := rfl
        refine ⟨_, shown [(text "txs", .arr jsons)], ?_⟩
        rw [blockInfoToJson, if_neg (numbered_ne_zero nonzero), header, same, listed]
        rfl

theorem errorReply_injective (id : Json) : Function.Injective (errorReply id) := by
  rintro ⟨code, message⟩ ⟨code', message'⟩ same
  simpa [errorReply] using same

theorem errorReply_ne_resultReply (id result : Json) (error : Int × Bytes) :
    errorReply id error ≠ resultReply id result := by
  have distinct : text "error" ≠ text "result" := by decide
  simp [errorReply, resultReply, distinct]

theorem buildReply_eq_iff (n m : Nat) :
    caught doc (buildReply lib log type (Writer.reset doc) b n) =
      caught doc (buildReply lib log type (Writer.reset doc) b m) ↔
    n = m ∨ ∃ error, Fails lib log type b n error ∧ Fails lib log type b m error := by
  constructor
  · intro same
    by_cases failed : ∃ error, Fails lib log type b n error
    · obtain ⟨error, failed⟩ := failed
      rw [failed.reply doc] at same
      by_cases failed' : ∃ error, Fails lib log type b m error
      · obtain ⟨error', failed'⟩ := failed'
        rw [failed'.reply doc] at same
        obtain rfl := errorReply_injective _ same
        exact .inr ⟨error, failed, failed'⟩
      · obtain ⟨result, -, reply⟩ := buildReply_of_not_fails (not_exists.mp failed') doc
        rw [reply] at same
        exact absurd same (errorReply_ne_resultReply _ _ _)
    · obtain ⟨result, shown, reply⟩ := buildReply_of_not_fails (not_exists.mp failed) doc
      rw [reply] at same
      by_cases failed' : ∃ error, Fails lib log type b m error
      · obtain ⟨error', failed'⟩ := failed'
        rw [failed'.reply doc] at same
        exact absurd same.symm (errorReply_ne_resultReply _ _ _)
      · obtain ⟨result', shown', reply'⟩ := buildReply_of_not_fails (not_exists.mp failed') doc
        rw [reply'] at same
        have results : result = result' := by simpa [resultReply] using same
        rw [results, shown'] at shown
        exact .inl (by simpa using shown.symm)
  · rintro (rfl | ⟨error, failed, failed'⟩)
    · rfl
    · rw [failed.reply, failed'.reply]

def SameReply (lib : Library) (settings : Settings) (log : Log) (type : Nat) (h : Bytes) (n : Nat) : Prop :=
  match getBlockByNum log (decimal n) settings.verify with
  | none => True
  | some dump =>
      match lib.parseBlockDump dump with
      | .ok (.block b) =>
          (settings.allowStateBlocks = true ∨ lib.isStateBlock b.header.blockType = false) ∧
          (atoi h = n ∨ ∃ error, Fails lib log type b (atoi h) error ∧ Fails lib log type b n error)
      | _ => True

theorem lookup_hash {h : Bytes} {n : Nat} (indexed : log.get h = some (decimal n)) (verify : Bool) :
    (BlockId.hash h).lookup log verify = (BlockId.number n).lookup log verify := by
  simp only [BlockId.lookup, getBlockByHash, indexed, decimal_ne_nil, if_false, Option.map_map]
  exact Option.map_id'

theorem stateBlockIgnored_injective {id id' : BlockId} (same : stateBlockIgnored id = stateBlockIgnored id') :
    id.getBlockId = id'.getBlockId := by
  simpa [stateBlockIgnored] using same

theorem execute_block {id : BlockId} {dump : Bytes} (found : id.lookup log settings.verify = some dump)
    (parsed : lib.parseBlockDump dump = .ok (.block b)) :
    execute lib settings log type doc id =
      if settings.allowStateBlocks = false ∧ lib.isStateBlock b.header.blockType = true then
        errorReply (idOf doc) (-32603, stateBlockIgnored id)
      else caught doc (buildReply lib log type (Writer.reset doc) b id.blockNumber) := by
  simp only [execute, executeBody, found, parsed, bind, Except.bind, Bool.and_eq_true, Bool.not_eq_eq_eq_not,
    Bool.not_true]
  split <;> rfl

theorem replies_by_hash_and_number_agree_iff (lib : Library) (settings : Settings) (log : Log) (type : Nat) (doc : Json)
    (n : Nat) (small : n < 2 ^ 64) (hash : Bytes) (long : hash.length = 32)
    (indexed : log.get (StringUtils.bin2hex hash) = some (decimal n)) :
    execute lib settings log type doc (.hash (StringUtils.bin2hex hash)) = execute lib settings log type doc (.number n) ↔
      SameReply lib settings log type (StringUtils.bin2hex hash) n := by
  have same := lookup_hash indexed settings.verify
  have number : (BlockId.number n).lookup log settings.verify = getBlockByNum log (decimal n) settings.verify := rfl
  unfold SameReply
  cases found : getBlockByNum log (decimal n) settings.verify with
  | none =>
      rw [found] at number
      simp only [execute, executeBody, same, number]
  | some dump =>
      rw [found] at number
      cases parsed : lib.parseBlockDump dump with
      | error thrown => simp only [execute, executeBody, same, number, parsed, bind, Except.bind]
      | ok block =>
          cases block with
          | signBlock prevHash txs => simp only [execute, executeBody, same, number, parsed, bind, Except.bind]
          | rejectedTxs => simp only [execute, executeBody, same, number, parsed, bind, Except.bind]
          | block b =>
              rw [execute_block (same.trans number) parsed, execute_block number parsed]
              by_cases ignored : settings.allowStateBlocks = false ∧ lib.isStateBlock b.header.blockType = true
              · rw [if_pos ignored, if_pos ignored]
                simp only [parsed, ignored.1, ignored.2, reduceCtorEq, Bool.false_eq_true, or_self, false_and, iff_false]
                intro same
                have ids := stateBlockIgnored_injective (congrArg Prod.snd (errorReply_injective _ same))
                exact Cache.bin2hex_ne_decimal long small ids
              · have shown : settings.allowStateBlocks = true ∨ lib.isStateBlock b.header.blockType = false := by
                  simpa [imp_iff_not_or] using ignored
                rw [if_neg ignored, if_neg ignored]
                simp only [parsed, shown, true_and]
                exact buildReply_eq_iff _ _

end

namespace Sample

def transfer : Transaction := ⟨[7], [97], [97], 0, 0, 0, 0, false, none, [], [], [], none, false, none⟩

def signature (k : UInt8) : Transaction :=
  { transfer with isSignBlockTx := true, data := Cache.Sample.hashOf k }

def block (hash prev : Bytes) (txs : List Transaction) : AnyBlock :=
  .block ⟨⟨0, 1, 2, hash, prev, [], [], 0, [], none⟩, txs⟩

def library (blocks : List AnyBlock) : Library where
  parseBlockDump dump :=
    match dump with
    | [k] => (blocks[k.toNat]?).elim (.error .unknown) .ok
    | _ => .error .unknown
  calcHexString := id
  isEmpty address := address = []
  getBlockType type := if type = 1 then .ok (text "state") else if type = 2 then .ok (text "block") else .error .unknown
  isStateBlock type := type = 1
  isForgingBlock _ := false
  realFee _ := 0
  isIntStatusNotSuccess _ := false
  sourceFile := text "generate_json.cpp"

def settings : Settings := ⟨false, true⟩

def shownNumber (reply : Json) : Option Int :=
  match (reply.get (text "result")).bind (·.get (text "number")) with
  | some (.int n) => some n
  | _ => none

end Sample

theorem replies_agree_for_a_hash_that_reads_as_the_number :
    let hash : Bytes := [0x13, 0x00] ++ List.replicate 30 0x1a
    let lib := Sample.library [Sample.block [] [] [], Sample.block hash [] [Sample.transfer]]
    let log : Log := [.put (.index hash 13001), .put (.dump 13001 [1])]
    execute lib Sample.settings log 2 Writer.initial (.hash (StringUtils.bin2hex hash)) =
      execute lib Sample.settings log 2 Writer.initial (.number 13001) := by
  intro hash lib log
  refine (replies_by_hash_and_number_agree_iff lib Sample.settings log 2 Writer.initial 13001 (by decide) hash rfl
    ?_).mpr ?_
  · decide +kernel
  · exact ⟨.inr rfl, .inl (by decide +kernel)⟩

theorem replies_by_hash_and_number_differ :
    let lib := Sample.library [Sample.block (Cache.Sample.hashOf 0) (Cache.Sample.hashOf 9) [],
      Sample.block (Cache.Sample.hashOf 1) (Cache.Sample.hashOf 0) [Sample.transfer],
      Sample.block (Cache.Sample.hashOf 2) (Cache.Sample.hashOf 1) [Sample.signature 1]]
    let env : Cache.Env := ⟨lib.cache, Cache.Sample.pair.settings⟩
    ∃ st, Lib.Reached (Cache.step env) (fun _ l => l.killed = none ∧ l.action.faults = []) .initial st ∧
      st.log.get (StringUtils.bin2hex (Cache.Sample.hashOf 1)) = some (decimal 13001) ∧
      execute lib Sample.settings st.log 0 Writer.initial (.hash (StringUtils.bin2hex (Cache.Sample.hashOf 1))) ≠
        execute lib Sample.settings st.log 0 Writer.initial (.number 13001) := by
  intro lib env
  have ran : ∃ st ∈ Lib.runAllowed (Cache.step env) (fun _ l => l.killed = none ∧ l.action.faults = [])
      .initial (Cache.Sample.start 13001 :: Cache.Sample.deliver [(13001, 1), (13002, 2)] ++
        [Cache.Sample.turn (some [0]), Cache.Sample.turn none]),
      st.log.get (StringUtils.bin2hex (Cache.Sample.hashOf 1)) = some (decimal 13001) ∧
      Sample.shownNumber (execute lib Sample.settings st.log 0 Writer.initial
        (.hash (StringUtils.bin2hex (Cache.Sample.hashOf 1)))) = some (2 ^ 64 - 1) ∧
      Sample.shownNumber (execute lib Sample.settings st.log 0 Writer.initial (.number 13001)) = some 13001 := by
    decide +kernel
  obtain ⟨st, ran, indexed, byHash, byNumber⟩ := ran
  refine ⟨st, .run .start ran, indexed, fun same => ?_⟩
  rw [same, byNumber] at byHash
  cases byHash

end FullnodeClient.Handlers
