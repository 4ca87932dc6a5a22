import FullnodeClient.Cache.Approval
import FullnodeClient.Cache.Height
import FullnodeClient.Cache.Lookup
import FullnodeClient.Cache.Sync
import FullnodeClient.Handlers.Forwarding

/-!
# What the cache serves

`get-dump-block-by-number`, `get-dump-block-by-hash` and `get-count-blocks` while the block cache runs, without the
local database. The threads that answer requests are not the one that synchronises, so each Get of a request sees the
database at a moment of its own.
-/

namespace FullnodeClient.Handlers
open FullnodeClient.Lib FullnodeClient.Text FullnodeClient.Rpc FullnodeClient.Cache

/-- The moments of the Gets that one request makes, in their order. -/
structure Reads (log : Log) where
  index : Log
  status : Log
  record : Log
  first : index <:+ status
  second : status <:+ record
  third : record <:+ log

section
variable {log : Log}

def Reads.getBlockByNum (reads : Reads log) (num : Bytes) (verify : Bool) : Option Bytes :=
  if verify && !verifiedOk reads.status num then none else reads.record.get num

def Reads.lookup (reads : Reads log) (verify : Bool) : BlockId → Option Bytes
  | .number n => reads.getBlockByNum (decimal n) verify
  | .hash h =>
      match reads.index.get h with
      | some num => if num = [] then none else reads.getBlockByNum num verify
      | none => none

def Reads.rest (log : Log) : Reads log := ⟨log, log, log, List.suffix_rfl, List.suffix_rfl, List.suffix_rfl⟩

theorem Reads.lookup_rest (log : Log) (verify : Bool) (id : BlockId) :
    (Reads.rest log).lookup verify id = id.lookup log verify := by
  cases id with
  | number n => rfl
  | hash h =>
      simp only [lookup, rest, BlockId.lookup, getBlockByHash, Reads.getBlockByNum, Cache.getBlockByNum]
      cases log.get h with
      | none => rfl
      | some num => by_cases empty : num = [] <;> simp [empty, Option.map_map, Function.comp_def]

def getDumpBlock (backend : Backend) (verify : Bool) (method : Method) (params : Bytes) (reads : Reads log) : Json :=
  match accept backend params with
  | .error refusal => refusal
  | .ok (doc, id) =>
      let writer := Writer.setId id Writer.initial
      caught writer do
        let given ← getParams doc id
        let blockId ← setDumpId given method
        executeDump (reads.lookup verify blockId) writer

variable {backend : Backend} {verify : Bool} {method : Method} {params : Bytes} {doc given : Json} {id : Nat}
  {block : BlockId} {reads : Reads log}

-- With the database at rest the reply is the one of `Forwarded.cached`.
theorem getDumpBlock_rest {node : Remote} {asked : Forwarded} {reply : Json} (running : node.cache = some log)
    (dumps : asked.dumps = some method) (accepted : accept node.toBackend params = .ok (doc, id))
    (cached : asked.cached node doc id = some reply) :
    getDumpBlock node.toBackend node.verify method params (Reads.rest log) = reply := by
  unfold Forwarded.cached at cached
  rw [running, dumps] at cached
  simp only [getDumpBlock, accepted]
  cases fields : getParams doc id with
  | error thrown => rw [fields] at cached; cases cached
  | ok given =>
      rw [fields] at cached
      cases identified : setDumpId given method with
      | error thrown => simp [Except.toOption, identified] at cached
      | ok block =>
          simp only [Except.toOption, identified, bind, Option.bind] at cached
          cases cached
          simp only [bind, Except.bind, identified, Reads.lookup_rest]

end

/-! ## Records of one chain -/

section
variable {env : Env} {chain : Chain env.lib} {st : State} {log u : Log} {n : Nat}

structure FromChain (chain : Chain env.lib) (log : Log) : Prop where
  dump : ∀ n d, .put (.dump n d) ∈ log → chain.Has n ∧ d = chain.dump n
  index : ∀ hash n, .put (.index hash n) ∈ log → chain.Has n ∧ hash = chain.hash n

namespace FromChain

theorem filed (hashes : env.lib.Hashes) (all : FromChain chain log) : log.Filed (2 ^ 32) where
  dump n d member := (all.dump n d member).1.upper.trans_lt chain.small
  index hash n member := by
    obtain ⟨inside, rfl⟩ := all.index hash n member
    exact ⟨inside.upper.trans_lt chain.small, chain.hash_length hashes inside⟩

theorem record (hashes : env.lib.Hashes) (all : FromChain chain log) (small : n < 2 ^ 64) {d : Bytes}
    (found : log.record n = some d) : chain.Has n ∧ d = chain.dump n :=
  all.dump n d ((all.filed hashes).record_mem small found)

theorem entry {action : Action} {e : Cache.Event} (all : FromChain chain u)
    (next : ∀ s ∈ st.save env action, chain.Next st.log s) (emitted : st.Emits env action u e) :
    FromChain chain (e :: u) where
  dump n d member := by
    rcases List.mem_cons.mp member with rfl | member
    · obtain ⟨s, chosen, rfl, rfl, -⟩ := emitted.dump_eq
      exact ⟨(next s chosen).inside, (next s chosen).dump⟩
    · exact all.dump n d member
  index hash n member := by
    rcases List.mem_cons.mp member with rfl | member
    · obtain ⟨s, -, chosen, rfl, rfl, -⟩ := emitted.index_eq
      exact ⟨(next s chosen).inside, (next s chosen).hash⟩
    · exact all.index hash n member

end FromChain

structure Serves (chain : Chain env.lib) (log : Log) : Prop where
  all : FromChain chain log
  tracked : chain.Tracked log
  kept : ∀ earlier, earlier <:+ log → ∀ n, chain.Held earlier n → chain.Held log n

theorem Serves.entry {action : Action} {e : Cache.Event} (hashes : env.lib.Hashes) (serves : Serves chain u)
    (next : ∀ s ∈ st.save env action, chain.Next st.log s) (emitted : st.Emits env action u e) :
    Serves chain (e :: u) where
  all := serves.all.entry next emitted
  tracked := serves.tracked.entry hashes next emitted
  kept earlier inside n held := by
    rcases List.suffix_cons_iff.mp inside with rfl | inside
    · exact held
    · exact (serves.kept earlier inside n held).entry hashes next emitted

end

namespace Sample

def dumpRequest (name : String) (value : Json) : Json :=
  .obj [(text "jsonrpc", .str (text "2.0")), (text "id", .int 7),
    (text "method", .str (text "get-dump-block-by-" ++ text name)), (text "params", .obj [(text name, value)])]

def requests : Backend where
  parse := readPlain
  useLocalDatabase := false
  validateMethods := false
  methodsSchema := none

def hashOfOne : Bytes := StringUtils.bin2hex (Cache.Sample.hashOf 1)

def byHash : Json := dumpRequest "hash" (.str hashOfOne)

def byNumber : Json := dumpRequest "number" (.int 2)

end Sample

section
variable {env : Env} {chain : Chain env.lib} {st : State} {log u : Log} {n : Nat}

theorem lastSigned_higher {action : Action} (emitted : st.Emits env action u (.put (.lastSigned n))) :
    u.lastSignedBlock < n := by
  cases emitted with
  | unverified _ saving => cases saving
  | block _ emitted =>
      cases emitted with
      | save saving => cases saving
      | lastSigned _ _ higher => exact higher
  | signBlock _ emitted =>
      cases emitted with
      | lastSigned _ _ _ higher => exact higher

theorem setLast_higher {action : Action} (emitted : st.Emits env action u (.setLast n)) : u.lastSignedBlock < n := by
  cases emitted with
  | unverified _ saving => cases saving
  | block _ emitted =>
      cases emitted with
      | save saving => cases saving
      | setLast _ _ higher => exact higher
  | signBlock _ emitted =>
      cases emitted with
      | setLast _ _ _ higher => exact higher

def onDisk (log : Log) : Nat := (log.get (text "last_signed_block")).elim 0 atoi

structure Lasts (chain : Chain env.lib) (log : Log) : Prop where
  holds : log.HeightHolds
  all : FromChain chain log
  disk : log.lastSignedBlock ≤ onDisk log
  height : ∀ earlier, earlier <:+ log → Log.lastSignedBlock earlier ≤ log.lastSignedBlock
  signed : ∀ earlier, earlier <:+ log → ∀ n, Log.Signed earlier n → log.Signed n
  stored : ∀ earlier, earlier <:+ log → ∀ n < 2 ^ 64, Log.record earlier n ≠ none → log.record n ≠ none

theorem onDisk_decimal (small : n < 2 ^ 31) (found : log.get (text "last_signed_block") = some (decimal n)) :
    onDisk log = n := by
  rw [onDisk, found, Option.elim_some, atoi_decimal (by omega), castNumber_small small]

theorem Lasts.height_entry {action : Action} {e : Cache.Event} (lasts : Lasts chain u) (emitted : st.Emits env action u e) :
    u.lastSignedBlock ≤ Log.lastSignedBlock (e :: u) := by
  cases e with
  | setLast n => exact (setLast_higher emitted).le
  | start fresh next last =>
      obtain ⟨rfl, count, -, same⟩ := emitted.start_eq
      cases same
      exact lasts.disk
  | _ => exact le_rfl

theorem Lasts.disk_entry {action : Action} {e : Cache.Event} (lasts : Lasts chain u) (holds : Log.HeightHolds (e :: u))
    (emitted : st.Emits env action u e) : Log.lastSignedBlock (e :: u) ≤ onDisk (e :: u) := by
  cases e with
  | put w =>
      cases w with
      | lastSigned n =>
          have higher := lastSigned_higher emitted
          obtain ⟨k, small, same⟩ := holds.disk (decimal n) (by simp)
          obtain rfl := decimal_injective same
          rw [onDisk_decimal small (by simp)]
          exact higher.le
      | _ => simpa [onDisk] using lasts.disk
  | setLast n =>
      have found := emitted.setLast_disk
      obtain ⟨k, small, same⟩ := holds.disk (decimal n) (by simpa using found)
      obtain rfl := decimal_injective same
      rw [onDisk_decimal small (by simpa using found)]
      exact le_rfl
  | start fresh next last =>
      obtain ⟨rfl, count, -, same⟩ := emitted.start_eq
      cases same
      exact le_rfl
  | _ => simpa [onDisk] using lasts.disk

theorem signed_entry {action : Action} {e : Cache.Event} (respects : RespectsApproval env st action)
    (emitted : st.Emits env action u e) (signed : u.Signed n) : Log.Signed (e :: u) n :=
  signed.cons fun ext same => by
    subst same
    exact respects.data emitted signed

theorem Lasts.entry {l : Label} {e : Cache.Event} (lasts : Lasts chain u) (hashes : env.lib.Hashes)
    (verified : env.settings.blockVerification = true) (linked : Linked env st) (tracks : chain.Tracks st)
    (keeps : KeepsHeight env st l.action) (respects : RespectsApproval env st l.action) (before : Lasts chain st.log)
    (emitted : st.Emits env l.action u e) : Lasts chain (e :: u) := by
  have holds := lasts.holds.entry hashes verified linked keeps before.holds emitted
  refine ⟨holds, lasts.all.entry (fun s chosen => tracks.next chosen) emitted, lasts.disk_entry holds emitted,
    fun earlier inside => ?_, fun earlier inside n signed => ?_, fun earlier inside n small stored => ?_⟩ <;>
    rcases List.suffix_cons_iff.mp inside with rfl | inside
  · exact le_rfl
  · exact (lasts.height earlier inside).trans (lasts.height_entry emitted)
  · exact signed
  · exact signed_entry respects emitted (lasts.signed earlier inside n signed)
  · exact stored
  · exact emitted.record_ne_none hashes keeps.hashes small (lasts.stored earlier inside n small stored)

end

end FullnodeClient.Handlers
