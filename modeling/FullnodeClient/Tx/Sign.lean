import FullnodeClient.Tx.Compact
import Mathlib.Data.List.TakeWhile

/-!
# Building, signing and parsing transactions

`utils::gen_sign`, `utils::make_tx` and `utils::parse_tansaction`. A call that can run forever returns
an `Option`; the inner `Option` of a `bool` function is `none` where it returns `false`.
-/

namespace FullnodeClient.Tx
open FullnodeClient.Lib FullnodeClient.Text

inductive Arg where
  | int (v : Nat)
  | str (s : Bytes)
deriving DecidableEq, Repr

/-- The `x` conversion strips a prefix before `hex2bin` looks for one. -/
def formatHex (arg : Bytes) : Option Bytes :=
  let param := cStr arg
  Crypto.hex2bin (if Crypto.hasPrefix0x param then param.drop 2 else param)

/-- The loop over `fmt` that `gen_sign` and `make_tx` share. An argument of the wrong kind is undefined. -/
def format : List Char → List Arg → Bytes → Option Bytes
  | [], _, data => some data
  | 'd' :: fmt, .int v :: args, data => format fmt args (data ++ writeCompactInt (v % 2 ^ 32))
  | 'D' :: fmt, .int v :: args, data => format fmt args (data ++ writeCompactInt (v % 2 ^ 64))
  | 'u' :: fmt, .int v :: args, data => format fmt args (data ++ writeCompactInt (v % 2 ^ 32))
  | 'U' :: fmt, .int v :: args, data => format fmt args (data ++ writeCompactInt (v % 2 ^ 64))
  | 'x' :: fmt, .str s :: args, data => do format fmt args (data ++ (← formatHex s))
  | 's' :: fmt, .str s :: args, data => format fmt args (data ++ cStr s)
  | c :: fmt, args, data =>
      if c ∈ ['d', 'D', 'u', 'U', 'x', 's'] then none else format fmt args data

/-- The signature of OpenSSL for a key and the bytes to be signed, if there is one, and SHA-256. -/
structure CryptoLib where
  sign : Bytes → Bytes → Option Bytes
  sha256 : Bytes → Bytes

/-- `CRYPTO_sign_data`, which throws where there is no signature. The size is converted to an `int`, and with a
negative one `EVP_DigestSignUpdate` reads beyond the data. -/
def signData (crypto : CryptoLib) (prvKey data : Bytes) : Option (Option Bytes) :=
  let dataSize := data.length % 2 ^ 32
  if dataSize < 2 ^ 31 then some (crypto.sign prvKey (data.take dataSize)) else none

def genSign (crypto : CryptoLib) (prvKey : Bytes) (fmt : String) (args : List Arg) :
    Option (Option (Bytes × Bytes)) := do
  let data ← format fmt.toList args []
  if data = [] then return none
  match ← signData crypto prvKey data with
  | none => return none
  | some sign =>
      let result ← Crypto.bin2hex sign
      let transaction ← Crypto.bin2hex data
      return some (transaction, result)

def makeTx (crypto : CryptoLib) (fmt : String) (args : List Arg) : Option (Option Bytes) := do
  let data ← format fmt.toList args []
  if data = [] then return none
  return some (← Crypto.bin2hex (crypto.sha256 (crypto.sha256 data)))

@[ext] structure ParsedTx where
  toAddr : Bytes
  value : Nat
  fee : Nat
  nonce : Nat
  dataSize : Nat
  data : Bytes
deriving DecidableEq, Repr

def maxSize : Nat := 2 ^ 63 - 1

def parseTansaction (transaction : StringView) : Except Failure ParsedTx := do
  let address ← transaction.read 50
  let (value, transaction) ← readCompactInt (transaction.removePrefix 50)
  let (fee, transaction) ← readCompactInt transaction
  let (nonce, transaction) ← readCompactInt transaction
  let (dataSize, transaction) ← readCompactInt transaction
  if maxSize < transaction.size then throw .lengthError
  let data ← transaction.read transaction.size
  return ⟨text "0x" ++ address, value, fee, nonce, dataSize, data⟩

/-- The arguments `create_tx_base_handler::build_request` passes for `xUUUux`, before `m_data` is in hex. -/
def requestArgs (toAddr : Bytes) (value fee nonce : Nat) (data : Bytes) : List Arg :=
  let hex := Common.toHex data
  [.str toAddr, .int value, .int fee, .int nonce, .int (hex.length / 2), .str hex]

@[ext] structure TxFields where
  toAddr : Bytes
  value : UInt64
  fee : UInt64
  nonce : UInt64
  data : Bytes
  toAddr_length : toAddr.length = 25
deriving DecidableEq

namespace TxFields

def encode (tx : TxFields) : Bytes :=
  tx.toAddr ++ writeCompactInt tx.value.toNat ++ writeCompactInt tx.fee.toNat ++
    writeCompactInt tx.nonce.toNat ++ writeCompactInt (tx.data.length % 2 ^ 32) ++ tx.data

def address (tx : TxFields) : Bytes := text "0x" ++ StringUtils.bin2hex tx.toAddr

def args (tx : TxFields) : List Arg :=
  requestArgs tx.address tx.value.toNat tx.fee.toNat tx.nonce.toNat tx.data

end TxFields

theorem formatHex_plain {s : Bytes} (plain : Crypto.hasPrefix0x (cStr s) = false) :
    formatHex s = if (cStr s).length + 1 < 2 ^ 32 then some (Common.hex2bin2 (cStr s)) else none := by
  simp only [formatHex, plain, Bool.false_eq_true, if_false]
  exact hex2bin_plain plain

theorem formatHex_address {s : Bytes} (nonempty : s ≠ []) (terminated : 0 ∉ s)
    (plain : Crypto.hasPrefix0x s = false) (small : s.length + 1 < 2 ^ 32) :
    formatHex (text "0x" ++ s) = some (Common.hex2bin2 s) := by
  have whole : text "0x" ++ s = 48 :: 120 :: s := rfl
  have stripped : Crypto.hasPrefix0x (48 :: 120 :: s) = true := by simp [hasPrefix0x_cons, nonempty]
  rw [whole, formatHex, cStr_eq_self (by simp [terminated])]
  simp only [stripped, if_true, List.drop_succ_cons, List.drop_zero]
  rw [hex2bin_plain plain, if_pos small]

theorem hexDigit_plain {d : Nat} (small : d < 16) : hexDigit d ≠ 0 ∧ hexDigit d ≠ 120 := by
  have digits : ∀ a : Fin 16, hexDigit a.val ≠ 0 ∧ hexDigit a.val ≠ 120 := by decide +kernel
  exact digits ⟨d, small⟩

theorem bin2hex_plain (b : Bytes) : 0 ∉ StringUtils.bin2hex b ∧ 120 ∉ StringUtils.bin2hex b := by
  constructor <;> intro member <;> obtain ⟨d, small, same⟩ := bin2hex_digit member
  · exact (hexDigit_plain small).1 same.symm
  · exact (hexDigit_plain small).2 same.symm

theorem formatHex_toHex (data : Bytes) :
    formatHex (Common.toHex data) = if data.length < 2 ^ 31 then some data else none := by
  obtain ⟨terminated, free⟩ := bin2hex_plain data
  have same : cStr (StringUtils.bin2hex data) = StringUtils.bin2hex data := cStr_eq_self terminated
  rw [toHex_eq, formatHex_plain (by rw [same]; exact hasPrefix0x_eq_false free), same, bin2hex_length,
    hex2bin2_bin2hex]
  exact if_congr (by omega) rfl rfl

theorem format_request (toAddr : Bytes) {value fee nonce : Nat} (hv : value < 2 ^ 64) (hf : fee < 2 ^ 64)
    (hn : nonce < 2 ^ 64) (data : Bytes) :
    format "xUUUux".toList (requestArgs toAddr value fee nonce data) [] =
      (do
        let receiver ← formatHex toAddr
        if data.length < 2 ^ 31 then
          some (receiver ++ writeCompactInt value ++ writeCompactInt fee ++ writeCompactInt nonce ++
            writeCompactInt (data.length % 2 ^ 32) ++ data)
        else none) := by
  have count : (Common.toHex data).length / 2 = data.length := by rw [toHex_eq, bin2hex_length]; omega
  have chars : "xUUUux".toList = ['x', 'U', 'U', 'U', 'u', 'x'] := rfl
  simp only [chars, requestArgs, format, count, formatHex_toHex, Nat.mod_eq_of_lt hv, Nat.mod_eq_of_lt hf,
    Nat.mod_eq_of_lt hn, List.nil_append]
  cases formatHex toAddr with
  | none => rfl
  | some receiver =>
      by_cases small : data.length < 2 ^ 31
      · simp only [if_pos small]
        rfl
      · simp only [if_neg small]
        rfl

theorem signData_eq {data : Bytes} (fits : data.length < 2 ^ 32) (crypto : CryptoLib) (prvKey : Bytes) :
    signData crypto prvKey data = if data.length < 2 ^ 31 then some (crypto.sign prvKey data) else none := by
  simp only [signData, Nat.mod_eq_of_lt fits, List.take_length]

section
variable {crypto : CryptoLib} {prvKey : Bytes} {fmt : String} {args : List Arg}

theorem genSign_eq {data sign : Bytes} (built : format fmt.toList args [] = some data) (nonempty : data ≠ [])
    (signed : crypto.sign prvKey data = some sign) (dataSmall : data.length < 2 ^ 31)
    (signSmall : sign.length < 2 ^ 32) :
    genSign crypto prvKey fmt args = some (some (StringUtils.bin2hex data, StringUtils.bin2hex sign)) := by
  have dataFits : data.length < 2 ^ 32 := by omega
  simp only [genSign, built, Option.bind_eq_bind, Option.bind_some, if_neg nonempty, signData_eq dataFits,
    if_pos dataSmall, signed, crypto_bin2hex_eq signSmall, crypto_bin2hex_eq dataFits]
  rfl

theorem genSign_eq_none (built : ∀ data, format fmt.toList args [] = some data → data ≠ [] ∧ data.length < 2 ^ 32 ∧
    2 ^ 31 ≤ data.length) : genSign crypto prvKey fmt args = none := by
  cases formatted : format fmt.toList args [] with
  | none =>
      rw [genSign, formatted]
      rfl
  | some data =>
      obtain ⟨nonempty, fits, long⟩ := built data formatted
      simp only [genSign, formatted, Option.bind_eq_bind, Option.bind_some, if_neg nonempty, signData_eq fits,
        if_neg (not_lt.mpr long)]
      rfl

end

namespace TxFields

theorem formatHex_address (tx : TxFields) : formatHex tx.address = some tx.toAddr := by
  obtain ⟨terminated, free⟩ := bin2hex_plain tx.toAddr
  have length : (StringUtils.bin2hex tx.toAddr).length = 50 := by rw [bin2hex_length, tx.toAddr_length]
  rw [address, Tx.formatHex_address (by rintro empty; simp [empty] at length) terminated
    (hasPrefix0x_eq_false free) (by omega),
    hex2bin2_bin2hex]

theorem format_args (tx : TxFields) :
    format "xUUUux".toList tx.args [] = if tx.data.length < 2 ^ 31 then some tx.encode else none := by
  rw [args, format_request _ tx.value.toNat_lt tx.fee.toNat_lt tx.nonce.toNat_lt, tx.formatHex_address]
  rfl

end TxFields

end FullnodeClient.Tx
