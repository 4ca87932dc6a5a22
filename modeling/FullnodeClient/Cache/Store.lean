import FullnodeClient.Lib.Log
import FullnodeClient.Cache.Block

/-!
# The database of the block cache

LevelDB as the log of the Puts made so far, with the values of the counters in memory and the blocks
taken from replies logged between them. The six kinds of records share one key space.
-/

namespace FullnodeClient.Cache
open FullnodeClient.Lib FullnodeClient.Text

/-- `static_cast<size_t>` of the `int` that the low 32 bits of a `long` make. -/
def castNumber (value : Int) : Nat := ((value.bmod (2 ^ 32)) % 2 ^ 64).toNat

/-- `static_cast<blk_number>(std::atoi(s.c_str()))`: `strtol`, which stops at the limits of `long`, cut
to an `int`. -/
def atoi (s : Bytes) : Nat :=
  match (cStr s).dropWhile isSpace with
  | 45 :: digits => castNumber (-(min (digitsValue digits) (2 ^ 63) : Nat))
  | 43 :: digits => castNumber (min (digitsValue digits) (2 ^ 63 - 1) : Nat)
  | digits => castNumber (min (digitsValue digits) (2 ^ 63 - 1) : Nat)

theorem atoi_decimal {n : Nat} (small : n < 2 ^ 63) : atoi (decimal n) = castNumber n := by
  have digit {c : UInt8} (member : c ∈ decimal n) : 48 ≤ c.toNat ∧ c.toNat ≤ 57 := decimal_digit member
  have whole : cStr (decimal n) = decimal n := by
    refine List.takeWhile_eq_self_iff.mpr fun c member => ?_
    have := digit member
    simp only [decide_eq_true_eq]
    rintro rfl
    simp at this
  obtain ⟨c, rest, eq⟩ := List.exists_cons_of_ne_nil (decimal_ne_nil n)
  have first := digit (c := c) (by simp [eq])
  have space : isSpace c = false := by
    simp only [isSpace, Bool.or_eq_false_iff, decide_eq_false_iff_not, Bool.and_eq_false_iff, UInt8.le_iff_toNat_le,
      ← UInt8.toNat_inj]
    simp
    omega
  have value := digitsValue_decimal n
  rw [atoi, whole, eq, List.dropWhile_cons, space]
  rw [eq] at value
  simp only [Bool.false_eq_true, if_false]
  split
  case h_1 same =>
    obtain ⟨rfl, -⟩ := List.cons.inj same
    simp at first
  case h_2 same =>
    obtain ⟨rfl, -⟩ := List.cons.inj same
    simp at first
  case h_3 => rw [value, min_eq_left (by omega)]

theorem castNumber_small {n : Nat} (small : n < 2 ^ 31) : castNumber n = n := by
  simp only [castNumber, Int.bmod_def]
  split <;> omega

abbrev ExtData := Bytes

namespace ExtData

def notChecked : UInt8 := 0
def notSigned : UInt8 := 1
def awaiting : UInt8 := 2
def signed : UInt8 := 3

def of (status : UInt8) : ExtData := status :: List.replicate 7 0

def status (ext : ExtData) : UInt8 := ext.headD 0

def setStatus (ext : ExtData) (status : UInt8) : ExtData := status :: ext.tail

end ExtData

inductive Write
  | dump (number : Nat) (dump : Bytes)
  | index (hash : Bytes) (number : Nat)
  | data (num : Bytes) (ext : ExtData)
  | extra (num : Bytes) (dump : Bytes)
  | nextBlock (number : Nat)
  | lastSigned (number : Nat)
deriving DecidableEq

def dataKey (num : Bytes) : Bytes := num ++ text "@data"

def extraKey (num : Bytes) : Bytes := num ++ text "@extra"

namespace Write

@[simp] def key : Write → Bytes
  | dump number _ => decimal number
  | index hash _ => StringUtils.bin2hex hash
  | data num _ => dataKey num
  | extra num _ => extraKey num
  | nextBlock _ => text "next_block"
  | lastSigned _ => text "last_signed_block"

@[simp] def value : Write → Bytes
  | dump _ d => d
  | index _ number => decimal number
  | data _ ext => ext
  | extra _ d => d
  | nextBlock number => decimal number
  | lastSigned number => decimal number

end Write

/-- A successful Put, a block or sign block of a reply that the routine goes on to save or apply, or a
new value of a counter in memory. `start` records whether the start found no `next_block`. -/
inductive Event
  | put (write : Write)
  | block (info : BlockInfo)
  | signBlock (info : SignBlockInfo)
  | start (fresh : Bool) (next last : Nat)
  | setNext (number : Nat)
  | setLast (number : Nat)
deriving DecidableEq

abbrev Log := List Event

namespace Log

def get : Log → Bytes → Option Bytes
  | [], _ => none
  | .put w :: past, key => if w.key = key then some w.value else get past key
  | _ :: past, key => get past key

/-- `m_nextblock`. -/
def nextblock : Log → Nat
  | [] => 0
  | .start _ next _ :: _ => next
  | .setNext number :: _ => number
  | _ :: past => nextblock past

/-- `m_last_signed_block`. -/
def lastSignedBlock : Log → Nat
  | [] => 0
  | .start _ _ last :: _ => last
  | .setLast number :: _ => number
  | _ :: past => lastSignedBlock past

variable (past : Log) (key : Bytes)

@[simp] theorem get_nil : get [] key = none := rfl

@[simp] theorem get_put (w : Write) :
    get (.put w :: past) key = if w.key = key then some w.value else get past key := rfl

@[simp] theorem get_block (info : BlockInfo) : get (.block info :: past) key = get past key := rfl

@[simp] theorem get_signBlock (info : SignBlockInfo) : get (.signBlock info :: past) key = get past key := rfl

@[simp] theorem get_start (fresh : Bool) (next last : Nat) :
    get (.start fresh next last :: past) key = get past key := rfl

@[simp] theorem get_setNext (number : Nat) : get (.setNext number :: past) key = get past key := rfl

@[simp] theorem get_setLast (number : Nat) : get (.setLast number :: past) key = get past key := rfl

@[simp] theorem nextblock_put (w : Write) : nextblock (.put w :: past) = nextblock past := rfl

@[simp] theorem nextblock_block (info : BlockInfo) : nextblock (.block info :: past) = nextblock past := rfl

@[simp] theorem nextblock_setNext (number : Nat) : nextblock (.setNext number :: past) = number := rfl

@[simp] theorem nextblock_setLast (number : Nat) : nextblock (.setLast number :: past) = nextblock past := rfl

@[simp] theorem lastSignedBlock_put (w : Write) : lastSignedBlock (.put w :: past) = lastSignedBlock past := rfl

@[simp] theorem lastSignedBlock_block (info : BlockInfo) :
    lastSignedBlock (.block info :: past) = lastSignedBlock past := rfl

@[simp] theorem lastSignedBlock_signBlock (info : SignBlockInfo) :
    lastSignedBlock (.signBlock info :: past) = lastSignedBlock past := rfl

@[simp] theorem lastSignedBlock_setNext (number : Nat) :
    lastSignedBlock (.setNext number :: past) = lastSignedBlock past := rfl

@[simp] theorem lastSignedBlock_setLast (number : Nat) : lastSignedBlock (.setLast number :: past) = number := rfl

end Log

/-! ## Keys

Numbers and hashes in hex are written with digits only, so `@` and `_` tell the other keys apart; a
number of 64 bits has fewer digits than a hash. -/

section Keys

variable (n m : Nat) (a b hash hash' : Bytes)

theorem at_not_mem_decimal : 64 ∉ decimal n := fun member => by simpa using decimal_digit member

theorem underscore_not_mem_decimal : 95 ∉ decimal n := fun member => by simpa using decimal_digit member

theorem at_not_mem_bin2hex : 64 ∉ StringUtils.bin2hex hash := by
  intro member
  obtain ⟨d, small, same⟩ := bin2hex_digit member
  exact (by decide : ∀ d < 16, 64 ≠ hexDigit d) d small same

theorem underscore_not_mem_bin2hex : 95 ∉ StringUtils.bin2hex hash := by
  intro member
  obtain ⟨d, small, same⟩ := bin2hex_digit member
  exact (by decide : ∀ d < 16, 95 ≠ hexDigit d) d small same

variable {a b} in
theorem dataKey_ne (absent : 64 ∉ b) : dataKey a ≠ b := by
  rintro rfl
  exact absent (List.mem_append_right _ (by decide))

variable {a b} in
theorem extraKey_ne (absent : 64 ∉ b) : extraKey a ≠ b := by
  rintro rfl
  exact absent (List.mem_append_right _ (by decide))

@[simp] theorem decimal_inj : decimal n = decimal m ↔ n = m := ⟨decimal_injective, fun h => h ▸ rfl⟩

@[simp] theorem bin2hex_inj : StringUtils.bin2hex hash = StringUtils.bin2hex hash' ↔ hash = hash' :=
  bin2hex_injective.eq_iff

@[simp] theorem dataKey_inj : dataKey a = dataKey b ↔ a = b := by simp [dataKey]

@[simp] theorem dataKey_ne_decimal : dataKey a ≠ decimal n := dataKey_ne (at_not_mem_decimal n)

@[simp] theorem dataKey_ne_bin2hex : dataKey a ≠ StringUtils.bin2hex hash := dataKey_ne (at_not_mem_bin2hex hash)

@[simp] theorem dataKey_ne_nextBlock : dataKey a ≠ text "next_block" := dataKey_ne (by decide)

@[simp] theorem dataKey_ne_lastSigned : dataKey a ≠ text "last_signed_block" := dataKey_ne (by decide)

@[simp] theorem extraKey_ne_decimal : extraKey a ≠ decimal n := extraKey_ne (at_not_mem_decimal n)

@[simp] theorem extraKey_ne_bin2hex : extraKey a ≠ StringUtils.bin2hex hash := extraKey_ne (at_not_mem_bin2hex hash)

@[simp] theorem extraKey_ne_nextBlock : extraKey a ≠ text "next_block" := extraKey_ne (by decide)

@[simp] theorem extraKey_ne_lastSigned : extraKey a ≠ text "last_signed_block" := extraKey_ne (by decide)

@[simp] theorem extraKey_ne_dataKey : extraKey a ≠ dataKey b := by
  intro same
  have ends := congrArg (fun s => s.reverse.take 2) same
  have extra : (text "@extra").reverse = [97, 114, 116, 120, 101, 64] := by decide
  have data : (text "@data").reverse = [97, 116, 97, 100, 64] := by decide
  simp [extraKey, dataKey, extra, data] at ends

@[simp] theorem decimal_ne_dataKey : decimal n ≠ dataKey a := (dataKey_ne_decimal n a).symm

@[simp] theorem bin2hex_ne_dataKey : StringUtils.bin2hex hash ≠ dataKey a := (dataKey_ne_bin2hex a hash).symm

@[simp] theorem nextBlock_ne_dataKey : text "next_block" ≠ dataKey a := (dataKey_ne_nextBlock a).symm

@[simp] theorem lastSigned_ne_dataKey : text "last_signed_block" ≠ dataKey a := (dataKey_ne_lastSigned a).symm

@[simp] theorem decimal_ne_extraKey : decimal n ≠ extraKey a := (extraKey_ne_decimal n a).symm

@[simp] theorem bin2hex_ne_extraKey : StringUtils.bin2hex hash ≠ extraKey a := (extraKey_ne_bin2hex a hash).symm

@[simp] theorem dataKey_ne_extraKey : dataKey a ≠ extraKey b := (extraKey_ne_dataKey b a).symm

@[simp] theorem decimal_ne_nextBlock : decimal n ≠ text "next_block" :=
  fun same => underscore_not_mem_decimal n (same ▸ by decide)

@[simp] theorem decimal_ne_lastSigned : decimal n ≠ text "last_signed_block" :=
  fun same => underscore_not_mem_decimal n (same ▸ by decide)

@[simp] theorem bin2hex_ne_nextBlock : StringUtils.bin2hex hash ≠ text "next_block" :=
  fun same => underscore_not_mem_bin2hex hash (same ▸ by decide)

@[simp] theorem bin2hex_ne_lastSigned : StringUtils.bin2hex hash ≠ text "last_signed_block" :=
  fun same => underscore_not_mem_bin2hex hash (same ▸ by decide)

@[simp] theorem nextBlock_ne_decimal : text "next_block" ≠ decimal n := (decimal_ne_nextBlock n).symm

@[simp] theorem lastSigned_ne_decimal : text "last_signed_block" ≠ decimal n := (decimal_ne_lastSigned n).symm

@[simp] theorem nextBlock_ne_bin2hex : text "next_block" ≠ StringUtils.bin2hex hash := (bin2hex_ne_nextBlock hash).symm

@[simp] theorem lastSigned_ne_bin2hex : text "last_signed_block" ≠ StringUtils.bin2hex hash :=
  (bin2hex_ne_lastSigned hash).symm

@[simp] theorem nextBlock_ne_lastSigned : text "next_block" ≠ text "last_signed_block" := by decide

@[simp] theorem lastSigned_ne_nextBlock : text "last_signed_block" ≠ text "next_block" := by decide

variable {n hash} in
theorem bin2hex_ne_decimal (long : hash.length = 32) (small : n < 2 ^ 64) : StringUtils.bin2hex hash ≠ decimal n := by
  intro same
  have length := congrArg List.length same
  have := decimal_length_le (n := n) (k := 20) (by norm_num) (by omega)
  rw [bin2hex_length, long] at length
  omega

end Keys

abbrev getBlockNumByHash (log : Log) (hash : Bytes) : Option Bytes := log.get (StringUtils.bin2hex hash)

abbrev getExtraData (log : Log) (number : Nat) : Option Bytes := log.get (dataKey (decimal number))

def getExtraBlockFor (log : Log) (number : Nat) : Option Bytes := log.get (extraKey (decimal number))

abbrev Log.record (log : Log) (number : Nat) : Option Bytes := log.get (decimal number)

def Log.Signed (log : Log) (number : Nat) : Prop :=
  ∃ ext ∈ getExtraData log number, ExtData.status ext = ExtData.signed

instance (log : Log) (number : Nat) : Decidable (log.Signed number) := by
  unfold Log.Signed
  infer_instance

theorem Log.signed_data {past : Log} {num : Bytes} {ext : ExtData} {number : Nat} :
    Log.Signed (.put (.data num ext) :: past) number ↔
      if num = decimal number then ExtData.status ext = ExtData.signed else past.Signed number := by
  by_cases here : num = decimal number <;> simp [Log.Signed, here]

def verifiedOk (log : Log) (num : Bytes) : Bool :=
  match log.get (dataKey num) with
  | some ext => ExtData.status ext = ExtData.signed
  | none => true

def getBlockByNum (log : Log) (num : Bytes) (verify : Bool) : Option Bytes :=
  if verify && !verifiedOk log num then none else log.get num

def getBlockByHash (log : Log) (h : Bytes) (verify : Bool) : Option (Bytes × Bytes) :=
  match log.get h with
  | some num => if num = [] then none else (getBlockByNum log num verify).map (num, ·)
  | none => none

abbrev CacheM := LogM Event

def put (write : Write) : CacheM Bool := LogM.attempt (.put write)

def saveExtraData (num : Bytes) (ext : ExtData) : CacheM Bool := put (.data num ext)

def saveExtraBlock (num : Bytes) (dump : Bytes) : CacheM Bool := put (.extra num dump)

def saveBlock (number : Nat) (hash : Bytes) (dump : Bytes) (ext : ExtData) : CacheM Bool := do
  if ← put (.dump number dump) then
    if hash = [] then return false
    else if ← put (.index hash number) then saveExtraData (decimal number) ext
    else return false
  else return false

def updateNumber (number : Nat) : CacheM Bool := put (.nextBlock number)

def updateLastSigned (number : Nat) : CacheM Bool := do
  if Log.lastSignedBlock (← LogM.look) < number then
    if ← put (.lastSigned number) then
      LogM.note (.setLast number)
      return true
    else return false
  else return true

end FullnodeClient.Cache
