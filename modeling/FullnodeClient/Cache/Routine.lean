import FullnodeClient.Cache.Store

/-!
# The synchronisation routine

`routine_2` of `cache/blocks_cache.cpp` as a machine that takes one reply or one frame of a reply at a
time. Replies are arbitrary; every Put can fail, and the process can be killed between any two log
entries and started again on the database it left.
-/

namespace FullnodeClient.Cache
open FullnodeClient.Lib FullnodeClient.Text

/-- An element of `hashes`. `GetUint` gives 32 bits. -/
structure BlkInfo where
  number : Nat
  hash : Bytes
  extra : List Bytes
  small : number < 2 ^ 32
deriving DecidableEq

structure Header where
  size : Option UInt32
  number : Option UInt32
  hash : Option Bytes
  prevExtraBlocks : List Bytes

structure CountReply where
  countBlocks : UInt64
  nextExtraBlocks : List Bytes

/-- A decompressed body and the readable memory behind it. -/
structure Body where
  bytes : Bytes
  beyond : Bytes

def blocksMaxSize (settings : Settings) : UInt32 := settings.recvDataSize * 1024 * 1024 * 2

/-- The loop over the array of `get-blocks`; `none` is an element that is not an object. -/
def collect (settings : Settings) : List (Option Header) → UInt32 → List BlkInfo → List BlkInfo
  | [], _, hashes => hashes
  | none :: rest, size, hashes => collect settings rest size hashes
  | some header :: rest, size, hashes =>
      let total := size + header.size.getD 0
      if header.size.isSome ∧ (if settings.blockVerification then 1 else 0) < hashes.length ∧
          blocksMaxSize settings < total then hashes
      else
        match header.number, header.hash with
        | some number, some hash =>
            collect settings rest total (hashes ++ [{
              number := number.toNat
              hash := Common.fromHex hash
              extra := header.prevExtraBlocks.map Common.fromHex
              small := number.toNat_lt }])
        | _, _ => []

/-- The pointer `p` into a body: the memory from it on, and how much of the body is left. -/
structure Buf where
  mem : Bytes
  left : Nat
deriving DecidableEq

def Buf.of (body : Body) : Buf := ⟨body.bytes ++ body.beyond, body.bytes.length⟩

inductive Frame
  | fault
  | zero
  | content (dump : Option Bytes) (rest : Buf)

def Buf.frame (buf : Buf) : Frame :=
  if buf.mem.length < 8 then .fault
  else
    let size := valueBE (buf.mem.take 8)
    if size = 0 then .zero
    else
      .content (if 8 + size ≤ buf.mem.length then some ((buf.mem.drop 8).take size) else none)
        ⟨buf.mem.drop (8 + size), buf.left - (8 + size)⟩

def frameOf (dump : Bytes) : Bytes := bigEndian 8 dump.length ++ dump

theorem valueBE_frameOf {dump : Bytes} (sized : dump.length < 2 ^ 64) (rest : Bytes) :
    valueBE ((frameOf dump ++ rest).take 8) = dump.length := by
  rw [frameOf, List.append_assoc, List.take_left' (bigEndian_length 8 _)]
  exact valueBE_bigEndian (by omega)

theorem Buf.frame_frameOf {dump : Bytes} (sized : dump.length < 2 ^ 64) (some : dump ≠ []) (rest : Bytes) (left : Nat) :
    (⟨frameOf dump ++ rest, left⟩ : Buf).frame = .content dump ⟨rest, left - (8 + dump.length)⟩ := by
  have room : 8 + dump.length ≤ (frameOf dump ++ rest).length := by simp [frameOf]
  have positive : dump.length ≠ 0 := by simpa using some
  unfold Buf.frame
  simp only [valueBE_frameOf sized, if_neg (show ¬(frameOf dump ++ rest).length < 8 by omega), if_neg positive,
    if_pos room]
  simp [frameOf, List.drop_append]

theorem Buf.frame_of {buf : Buf} {dump rest : Bytes} (sized : dump.length < 2 ^ 64)
    (mem : buf.mem = frameOf dump ++ rest) {content : Option Bytes} {after : Buf}
    (found : buf.frame = .content content after) : content = some dump ∧ after.mem = rest := by
  have room : 8 + dump.length ≤ (frameOf dump ++ rest).length := by simp [frameOf]
  unfold Buf.frame at found
  simp only [mem, valueBE_frameOf sized, if_neg (show ¬(frameOf dump ++ rest).length < 8 by omega), if_pos room] at found
  split at found <;> cases found
  simp [frameOf, List.drop_append]

def readExtData (log : Log) (num : Nat) (exdata : ExtData) : ExtData :=
  match getExtraData log num with
  | some data => data.take 8
  | none => exdata

/-- `get_block`, with the replies to `get-dump-block-by-number`. The outer result is an exception; the
inner one is `none` where the call returns false. -/
def getBlock (env : Env) (fetch : Nat → Option Bytes) (log : Log) (num : Nat) (exdata : ExtData) :
    Except Unit (Option BlockInfo × ExtData) :=
  let exdata := readExtData log num exdata
  match getBlockByNum log (decimal num) false with
  | some dump =>
      match env.lib.blockOf dump with
      | some b => .ok (some { b with blockNumber := some num }, exdata)
      | none => .error ()
  | none =>
      match fetch num with
      | none => .ok (none, exdata)
      | some dump =>
          match env.lib.parseBlockDump dump with
          | some (.block b) => .ok (some { b with blockNumber := some num }, exdata)
          | some _ => .ok (none, exdata)
          | none => .error ()

/-- `bi_prev` and `prev_ext_data`. -/
structure Carried where
  prev : BlockInfo
  ext : ExtData
deriving DecidableEq

structure Candidate where
  number : Nat
  dump : Bytes
  block : BlockInfo
  prev : BlockInfo
  ext : ExtData
  verify : Int
deriving DecidableEq

def previousBlock (env : Env) (fetch : Nat → Option Bytes) (log : Log) (number : Nat) (carried : Carried) :
    Except Unit (Option BlockInfo × ExtData) :=
  if carried.prev.hash = [] then getBlock env fetch log (number - 1) carried.ext
  else .ok (some carried.prev, carried.ext)

/-- The checks of the block loop up to `save_block`. A break leaves `bi_prev` and `prev_ext_data`. -/
def checkBlock (env : Env) (fetch : Nat → Option Bytes) (log : Log) (iter : BlkInfo) (content : Option Bytes)
    (carried : Carried) : Except Unit (Carried ⊕ Candidate) :=
  match previousBlock env fetch log iter.number carried with
  | .error _ => .error ()
  | .ok (none, ext) => .ok (.inl ⟨carried.prev, ext⟩)
  | .ok (some prev, ext) =>
      match content with
      | none => .error ()
      | some dump =>
          match env.lib.blockOf dump with
          | none => .error ()
          | some b =>
              let bi := { b with blockNumber := some iter.number }
              let verify := coreAddrVerification env bi (StringUtils.bin2hex prev.hash)
              if bi.hash = iter.hash ∧ bi.prevHash = prev.hash ∧ verify ≠ -1 then
                .ok (.inr ⟨iter.number, dump, bi, prev, ext, verify⟩)
              else .ok (.inl ⟨prev, ext⟩)

def brokenBlock (env : Env) (fetch : Nat → Option Bytes) (log : Log) (prev : BlockInfo) (m : Nat) :
    Except Unit (Option ExtData) :=
  match getBlock env fetch log (m - 1) (ExtData.of ExtData.notChecked) with
  | .error _ => .error ()
  | .ok (none, _) => .ok none
  | .ok (some b1, ex1) =>
      if ExtData.status ex1 ≠ ExtData.signed ∧ prev.prevHash = b1.hash then
        -- the number is unsigned, so `m - 2` wraps for `m = 1`
        match getBlock env fetch log ((m + 2 ^ 64 - 2) % 2 ^ 64) (ExtData.of ExtData.notChecked) with
        | .error _ => .error ()
        | .ok (none, _) => .ok none
        | .ok (some b2, _) =>
            if b1.prevHash = b2.hash ∧ 0 < coreAddrVerification env b1 (StringUtils.bin2hex b2.hash) then
              .ok (some (ExtData.setStatus ex1 ExtData.signed))
            else .ok none
      else .ok none

def mark (number : Nat) (ext : ExtData) : CacheM Unit := do
  let _ ← saveExtraData (decimal number) ext
  let _ ← updateLastSigned number

def markBroken (env : Env) (fetch : Nat → Option Bytes) (c : Candidate) (m : Nat) : CacheM Unit := do
  if ExtData.status c.ext = ExtData.awaiting then
    match brokenBlock env fetch (← LogM.look) c.prev m with
    | .error _ => throw ()
    | .ok (some ex1) => mark (m - 1) ex1
    | .ok none => pure ()
  else pure ()

def markPrevious (env : Env) (fetch : Nat → Option Bytes) (c : Candidate) : CacheM Unit :=
  match c.prev.blockNumber with
  | some m =>
      if 0 < m then do
        markBroken env fetch c m
        mark m (ExtData.setStatus c.ext ExtData.signed)
      else pure ()
  | none => pure ()

def signBlocks (env : Env) (fetch : Nat → Option Bytes) (c : Candidate) : CacheM ExtData := do
  if c.verify = intMax then
    mark c.number (ExtData.of ExtData.signed)
    if ExtData.status c.ext = ExtData.notSigned ∨ ExtData.status c.ext = ExtData.notChecked then
      markPrevious env fetch c
    return ExtData.of ExtData.signed
  else if 0 < c.verify then
    markPrevious env fetch c
    return ExtData.of ExtData.notChecked
  else if c.verify = 0 then
    let _ ← saveExtraData (decimal c.number) (ExtData.of ExtData.awaiting)
    return ExtData.of ExtData.awaiting
  else return ExtData.of ExtData.notChecked

def saveAndAdvance (number : Nat) (hash : Bytes) (dump : Bytes) (ext : ExtData) : CacheM Bool := do
  if ← saveBlock number hash dump ext then
    LogM.note (.setNext (number + 1))
    let _ ← updateNumber (number + 1)
    return true
  else return false

def acceptBlock (env : Env) (fetch : Nat → Option Bytes) (c : Candidate) : CacheM (Bool × Carried) := do
  LogM.note (.block c.block)
  if ← saveAndAdvance c.number c.block.hash c.dump (ExtData.of ExtData.notChecked) then
    let ext ← signBlocks env fetch c
    return (true, ⟨c.block, ext⟩)
  else return (false, ⟨c.prev, c.ext⟩)

def acceptUnverified (iter : BlkInfo) (dump : Bytes) (carried : Carried) : CacheM (Bool × Carried) := do
  let ext := ExtData.of (if iter.number = 1 then ExtData.signed else ExtData.notChecked)
  let ok ← saveAndAdvance iter.number iter.hash dump ext
  return (ok, carried)

def walkFrame (env : Env) (fetch : Nat → Option Bytes) (iter : BlkInfo) (content : Option Bytes)
    (carried : Carried) : CacheM (Bool × Carried) := do
  if env.settings.blockVerification ∧ 1 < iter.number then
    match checkBlock env fetch (← LogM.look) iter content carried with
    | .error _ => throw ()
    | .ok (.inl carried) => return (false, carried)
    | .ok (.inr c) => acceptBlock env fetch c
  else
    match content with
    | some dump => acceptUnverified iter dump carried
    | none => return (false, carried)

def extraRequest (recvCount : Nat) : List (List Bytes) → Nat → Nat × List (List Bytes)
  | [], count => (count, [])
  | extra :: rest, count =>
      if recvCount ≤ count + extra.length then (count + extra.length, extra :: rest)
      else extraRequest recvCount rest (count + extra.length)

def signBlockStatus (env : Env) (info : SignBlockInfo) : UInt8 :=
  if 0 < signBlockVerification env info then ExtData.signed else ExtData.notSigned

def applySignBlock (env : Env) (dump : Bytes) (info : SignBlockInfo) : CacheM Unit := do
  LogM.note (.signBlock info)
  match getBlockNumByHash (← LogM.look) info.prevHash with
  | none => pure ()
  | some num =>
      let _ ← saveExtraData num (ExtData.of (signBlockStatus env info))
      let _ ← saveExtraBlock num dump
      if signBlockStatus env info = ExtData.signed then
        let _ ← updateLastSigned (atoi num)

def extraFrame (env : Env) (content : Option Bytes) : CacheM Unit :=
  match content.bind env.lib.parseBlockDump with
  | none => throw ()
  | some (.signBlock info) => applySignBlock env (content.getD []) info
  | some _ => pure ()

/-! ## The machine -/

/-- Where the routine waits. `extras` and `extraWalk` hold the extra hashes of the elements of `hashes`;
the numbers in them are only logged. -/
inductive Phase
  | down
  | stopped
  | idle
  | dumps (hashes : List BlkInfo)
  | walk (buf : Buf) (before after : List BlkInfo)
  | extras (hashes : List (List Bytes))
  | extraWalk (buf : Buf) (slots : Nat) (rest : List (List Bytes))
deriving DecidableEq

structure State where
  log : Log
  carried : Carried
  phase : Phase
deriving DecidableEq

/-- What happens next: the process starts, a reply arrives, or the loop over a reply turns once, with the
Puts among `faults` failing. -/
inductive Action
  | start (count : Option CountReply)
  | poll (reply : Option (List (Option Header))) (count : Option CountReply)
  | dumps (body : Option Body)
  | frame (fetch : Nat → Option Bytes) (faults : List Nat)
  | extraDumps (body : Option Body)
  | extraFrame (faults : List Nat)
  | stop

def succeeds (faults : List Nat) (attempt : Nat) : Bool := attempt ∉ faults

def Action.fetch : Action → Nat → Option Bytes
  | .frame fetch _ => fetch
  | _ => fun _ => none

def Action.faults : Action → List Nat
  | .frame _ faults => faults
  | .extraFrame faults => faults
  | _ => []

/-- An action, and after how many of its log entries the process is killed, if it is. -/
structure Label where
  action : Action
  killed : Option Nat

def Carried.initial : Carried := ⟨⟨[], [], false, false, none, []⟩, ExtData.of 255⟩

def State.initial : State := ⟨[], .initial, .down⟩

def startNumber (settings : Settings) (next : Nat) (count : Option CountReply) : Nat :=
  if next ≠ 0 then next
  else if settings.initCount = 0 then 1
  else
    match count with
    | none => 1
    | some reply =>
        if settings.initCount.toNat < reply.countBlocks.toNat then
          reply.countBlocks.toNat - settings.initCount.toNat
        else reply.countBlocks.toNat

/-- `init` and the head of `routine_2`. -/
def startEvent (settings : Settings) (log : Log) (count : Option CountReply) : Event :=
  let next := log.get (text "next_block")
  let last := log.get (text "last_signed_block")
  .start next.isNone (startNumber settings (next.elim 0 atoi) count) (last.elim 0 atoi)

def loadExtraBlocks (settings : Settings) (hashes : List (List Bytes)) : Phase :=
  if hashes = [] ∨ (extraRequest settings.recvCount.toNat hashes 0).1 = 0 then .idle else .extras hashes

def nextFrame (buf : Buf) (more : Bool) : Option Frame :=
  if 0 < buf.left ∧ more then some buf.frame else none

theorem nextFrame_eq_some {buf : Buf} {more : Bool} {frame : Frame} (found : nextFrame buf more = some frame) :
    0 < buf.left ∧ more = true ∧ buf.frame = frame := by
  unfold nextFrame at found
  split at found
  case isTrue going => exact ⟨going.1, going.2, Option.some.inj found⟩
  case isFalse => cases found

def pollPhase (settings : Settings) (log : Log) (reply : Option (List (Option Header)))
    (count : Option CountReply) : Phase :=
  match reply with
  | none => .idle
  | some [] =>
      match count with
      | none => .idle
      | some reply =>
          if reply.countBlocks.toNat = Log.lastSignedBlock log then .idle
          else loadExtraBlocks settings [reply.nextExtraBlocks.map Common.fromHex]
  | some elements =>
      match collect settings elements 0 [] with
      | [] => .idle
      | hashes => .dumps hashes

def act (env : Env) (st : State) : Action → Option State
  | .start count =>
      match st.phase with
      | .down => some ⟨startEvent env.settings st.log count :: st.log, .initial, .idle⟩
      | _ => none
  | .poll reply count =>
      match st.phase with
      | .idle => some { st with phase := pollPhase env.settings st.log reply count }
      | _ => none
  | .dumps body =>
      match st.phase, body with
      | .dumps _, none => some { st with phase := .idle }
      | .dumps hashes, some body =>
          if body.bytes = [] then some { st with phase := .idle }
          else some { st with
            carried := ⟨{ st.carried.prev with hash := [] }, st.carried.ext⟩
            phase := .walk (.of body) [] hashes }
      | _, _ => none
  | .frame fetch faults =>
      match st.phase with
      | .walk buf before after =>
          let done := { st with phase := loadExtraBlocks env.settings (before.map (·.extra)) }
          match nextFrame buf !after.isEmpty, after with
          | some .fault, _ => some { st with phase := .down }
          | some (.content dump rest), iter :: after =>
              match (walkFrame env fetch iter dump st.carried).runOn (succeeds faults) ⟨st.log, 0⟩ with
              | (.ok (true, carried), disk) => some ⟨disk.log, carried, .walk rest (before ++ [iter]) after⟩
              | (.ok (false, carried), disk) =>
                  some ⟨disk.log, carried, loadExtraBlocks env.settings (before.map (·.extra))⟩
              | (.error _, disk) => some ⟨disk.log, st.carried, .stopped⟩
          | _, _ => some done
      | _ => none
  | .extraDumps body =>
      match st.phase with
      | .extras hashes =>
          let rest := (extraRequest env.settings.recvCount.toNat hashes 0).2
          match body with
          | none => some { st with phase := loadExtraBlocks env.settings rest }
          | some body => some { st with phase := .extraWalk (.of body) hashes.length rest }
      | _ => none
  | .extraFrame faults =>
      match st.phase with
      | .extraWalk buf slots rest =>
          match nextFrame buf (0 < slots) with
          | some .fault => some { st with phase := .down }
          | some (.content dump after) =>
              match (extraFrame env dump).runOn (succeeds faults) ⟨st.log, 0⟩ with
              | (.ok _, disk) => some { st with log := disk.log, phase := .extraWalk after (slots - 1) rest }
              | (.error _, disk) => some { st with log := disk.log, phase := .stopped }
          | _ => some { st with phase := loadExtraBlocks env.settings rest }
      | _ => none
  | .stop =>
      match st.phase with
      | .down => none
      | _ => some { st with phase := .stopped }

def State.kill (st : State) (log : Log) (entries : Nat) : State :=
  ⟨st.log.drop (st.log.length - (log.length + entries)), st.carried, .down⟩

def step (env : Env) (st : State) (l : Label) : Option State :=
  match act env st l.action, l.killed with
  | some st', some entries => some (st'.kill st.log entries)
  | result, _ => result

/-! ## A sample server

One core, and blocks whose dump is a single byte, so that runs can be computed. -/

namespace Sample

def hashOf (k : UInt8) : Bytes := List.replicate 32 k

def core : Bytes := [97]

def transfer : TransactionInfo := ⟨false, [], [], []⟩

def signature (k : UInt8) : TransactionInfo := ⟨true, core, core, hashOf k⟩

def block (k prev : UInt8) (txs : List TransactionInfo) : SomeBlock :=
  .block ⟨hashOf k, hashOf prev, false, false, none, txs⟩

def sized : SomeBlock → Bool
  | .block b => b.hash.length = 32
  | .signBlock s => s.prevHash.length = 32
  | .other => true

def parse (blocks : List SomeBlock) : Bytes → Option SomeBlock
  | [k] => blocks[k.toNat]?
  | _ => none

def env (blocks : List SomeBlock) : Env := ⟨⟨parse blocks, id⟩, ⟨[core], true, 1, 100, 5⟩⟩

theorem mem_of_parse {blocks : List SomeBlock} {dump : Bytes} {b : SomeBlock} (parsed : parse blocks dump = some b) :
    b ∈ blocks := by
  unfold parse at parsed
  split at parsed
  case h_1 => exact List.mem_of_getElem? parsed
  case h_2 => cases parsed

theorem env_hashes {blocks : List SomeBlock} (all : ∀ b ∈ blocks, sized b = true) : (env blocks).lib.Hashes where
  block d b parsed := by simpa [sized] using all _ (mem_of_parse parsed)
  signBlock d s parsed := by simpa [sized] using all _ (mem_of_parse parsed)

def pair : Env := env [block 0 9 [], block 1 0 [transfer], block 2 1 [signature 1]]

def start (first : UInt64) : Label := ⟨.start (some ⟨first + 1, []⟩), none⟩

def deliver (blocks : List (UInt32 × UInt8)) : List Label :=
  [⟨.poll (some (blocks.map fun b => some ⟨none, some b.1, some (StringUtils.bin2hex (hashOf b.2)), []⟩)) none, none⟩,
    ⟨.dumps (some ⟨blocks.flatMap fun b => bigEndian 8 1 ++ [b.2], []⟩), none⟩]

def turn (dump : Option Bytes) : Label := ⟨.frame (fun _ => dump) [], none⟩

end Sample

end FullnodeClient.Cache
