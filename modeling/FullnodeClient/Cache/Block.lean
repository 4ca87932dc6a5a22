import FullnodeClient.Text.Hex

/-!
# Blocks and core signatures

The blocks `parseBlockDump` returns, with the fields the cache reads, and the checks of
`cache/blocks_cache.cpp` on them. The parser itself and the rendering of addresses belong to the
torrent library and stay parameters.
-/

namespace FullnodeClient.Cache
open FullnodeClient.Lib FullnodeClient.Text

structure TransactionInfo where
  isSignBlockTx : Bool
  toAddress : Bytes
  fromAddress : Bytes
  data : Bytes
deriving DecidableEq

structure BlockInfo where
  hash : Bytes
  prevHash : Bytes
  isStateBlock : Bool
  isForgingBlock : Bool
  blockNumber : Option Nat
  txs : List TransactionInfo
deriving DecidableEq

structure SignTransactionInfo where
  blockHash : Bytes
  address : Bytes
deriving DecidableEq

structure SignBlockInfo where
  prevHash : Bytes
  txs : List SignTransactionInfo
deriving DecidableEq

inductive SomeBlock
  | block (info : BlockInfo)
  | signBlock (info : SignBlockInfo)
  | other
deriving DecidableEq

/-- What the cache uses of the torrent library. `parseBlockDump` throws where it is `none`. -/
structure TorrentLib where
  parseBlockDump : Bytes → Option SomeBlock
  calcHexString : Bytes → Bytes

structure Settings where
  cores : List Bytes
  blockVerification : Bool
  initCount : UInt32
  recvCount : UInt32
  recvDataSize : UInt32

structure Env where
  lib : TorrentLib
  settings : Settings

structure TorrentLib.Hashes (lib : TorrentLib) : Prop where
  block : ∀ d b, lib.parseBlockDump d = some (.block b) → b.hash.length = 32
  signBlock : ∀ d s, lib.parseBlockDump d = some (.signBlock s) → s.prevHash.length = 32

def TorrentLib.blockOf (lib : TorrentLib) (dump : Bytes) : Option BlockInfo :=
  match lib.parseBlockDump dump with
  | some (.block b) => some b
  | _ => none

def intMax : Int := 2 ^ 31 - 1

def autoSignedBlocks : List (Nat × Nat) := [(1, 12890)]

def autoSignedBlock (number : Nat) : Bool :=
  autoSignedBlocks.any fun v => v.1 = number || (v.1 < v.2 && v.1 < number && number ≤ v.2)

def coreLoop (lib : TorrentLib) (prevHash : Bytes) : List TransactionInfo → List Bytes → Bool → Bool × List Bytes
  | [], cores, succ => (succ, cores)
  | tx :: txs, cores, _ =>
      if !tx.isSignBlockTx then coreLoop lib prevHash txs cores true
      else if tx.toAddress ≠ tx.fromAddress then (false, cores)
      else
        let sender := (lib.calcHexString tx.fromAddress).map lowerCase
        if sender ∈ cores then
          if StringUtils.bin2hex tx.data = prevHash then
            coreLoop lib prevHash txs (cores.erase sender) true
          else (false, cores.erase sender)
        else (false, cores)

/-- The sum of the checks on a block: `-1` for a failure, `intMax` for a block that needs no
signatures, the number of cores that signed its predecessor otherwise. -/
def coreAddrVerification (env : Env) (bi : BlockInfo) (prevHash : Bytes) : Int :=
  if bi.isStateBlock || bi.isForgingBlock then intMax
  else
    match bi.blockNumber with
    -- `value()` throws.
    | none => -1
    | some number =>
      if autoSignedBlock number then intMax
      else
        match coreLoop env.lib prevHash (bi.txs.take 7) env.settings.cores false with
        | (true, cores) => env.settings.cores.length - cores.length
        | (false, _) => -1

def signLoop (lib : TorrentLib) : List SignTransactionInfo → List Bytes → Bool → Bool × List Bytes
  | [], cores, succ => (succ, cores)
  | tx :: txs, cores, _ =>
      let sender := (lib.calcHexString tx.address).map lowerCase
      if sender ∈ cores then signLoop lib txs (cores.erase sender) true else (false, cores)

def signBlockVerification (env : Env) (bi : SignBlockInfo) : Int :=
  match signLoop env.lib (bi.txs.take 7) env.settings.cores false with
  | (true, cores) => env.settings.cores.length - cores.length
  | (false, _) => -1

theorem coreLoop_length (lib : TorrentLib) (prevHash : Bytes) (txs : List TransactionInfo) (cores : List Bytes)
    (succ : Bool) : cores.length ≤ (coreLoop lib prevHash txs cores succ).2.length + txs.length := by
  induction txs generalizing cores succ with
  | nil => simp [coreLoop]
  | cons tx txs ih =>
      have erased (sender : Bytes) : cores.length ≤ (cores.erase sender).length + 1 := by
        rw [List.length_erase]
        split <;> omega
      simp only [coreLoop, List.length_cons]
      split
      case isTrue => have := ih cores true; omega
      case isFalse =>
        split
        case isTrue => simp only; omega
        case isFalse =>
          split
          case isFalse => simp only; omega
          case isTrue =>
            have := erased ((lib.calcHexString tx.fromAddress).map lowerCase)
            split
            case isTrue =>
              have := ih (cores.erase ((lib.calcHexString tx.fromAddress).map lowerCase)) true
              omega
            case isFalse => simp only; omega

theorem coreAddrVerification_intMax {env : Env} {bi : BlockInfo} {prevHash : Bytes}
    (passed : coreAddrVerification env bi prevHash = intMax) :
    bi.isStateBlock = true ∨ bi.isForgingBlock = true ∨ ∃ number ∈ bi.blockNumber, autoSignedBlock number = true := by
  unfold coreAddrVerification at passed
  split at passed
  case isTrue exempt => exact (by simpa [Bool.or_eq_true] using exempt : _ ∨ _).imp_right .inl
  case isFalse =>
    split at passed
    case h_1 => simp [intMax] at passed
    case h_2 number known =>
      split at passed
      case isTrue auto => exact .inr (.inr ⟨number, known, auto⟩)
      case isFalse =>
        exfalso
        have bound := coreLoop_length env.lib prevHash (bi.txs.take 7) env.settings.cores false
        have seven := List.length_take_le 7 bi.txs
        simp only [intMax] at passed
        split at passed
        case h_1 cores looped =>
          simp only [looped] at bound
          omega
        case h_2 => omega

end FullnodeClient.Cache
