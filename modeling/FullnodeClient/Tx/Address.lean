import FullnodeClient.Tx.RoundTrip
import FullnodeClient.Wallet.Storage

/-!
# Addresses

`crypto_generate_address` and `CRYPTO_check_address` of `cpplib_open_ssl_decor/crypto.cpp` and
`utils::validate_address`. The decoder behind the check takes every character that is no hex digit for a
zero.
-/

namespace FullnodeClient.Tx
open FullnodeClient.Lib FullnodeClient.Text

structure Digests where
  sha256 : Bytes → Bytes
  ripemd160 : Bytes → Bytes
  sha256_length : ∀ data, (sha256 data).length = 32
  ripemd160_length : ∀ data, (ripemd160 data).length = 20

/-- Of a key with fewer than 65 bytes the last 65 bytes cannot be taken. -/
def generateAddress (digests : Digests) (publicKeyBuf : Bytes) : Option Bytes :=
  if publicKeyBuf.length < 65 then none
  else
    let buf1 := publicKeyBuf.drop (publicKeyBuf.length - 65)
    let buf3 := 0 :: digests.ripemd160 (digests.sha256 buf1)
    let buf2 := digests.sha256 (digests.sha256 buf3)
    some (buf3 ++ buf2.take 4)

def resize (buf : Bytes) (size : Nat) : Bytes := buf.take size ++ List.replicate (size - buf.length) 0

def checkAddress (sha256 : Bytes → Bytes) (mhAddress : Bytes) : Option Bool := do
  let buf ← Crypto.hex2bin mhAddress
  if buf.length < 4 then none
  else
    let buf1 := sha256 (sha256 (buf.take (buf.length - 4)))
    return resize buf1 4 = buf.drop (buf.length - 4)

def validateAddress (sha256 : Bytes → Bytes) (value : Bytes) : Bool :=
  value.length = 26 * 2 && value.take 2 = text "0x" && (value.drop 2).take 2 = text "00" &&
    checkAddress sha256 value = some true

variable {sha256 : Bytes → Bytes} {digits : Bytes}

theorem hexValue_lowerCase (c : UInt8) : Common.hexValue (lowerCase c) = Common.hexValue c := by
  revert c
  apply forall_byte
  decide +kernel

theorem checkAddress_eq (length : digits.length = 50) :
    checkAddress sha256 (text "0x" ++ digits) = some (decide (resize (sha256 (sha256 ((Common.hex2bin2 digits).take 21))) 4 =
      (Common.hex2bin2 digits).drop 21)) := by
  have size : (Common.hex2bin2 digits).length = 25 := by rw [hex2bin2_length, length]
  have small : (text "0x" ++ digits).length + 1 < 2 ^ 32 := by
    rw [List.length_append, length]
    decide
  have marked : Crypto.hasPrefix0x (text "0x" ++ digits) = true := by
    cases digits with
    | nil => cases length
    | cons c rest => simp [Crypto.hasPrefix0x, charAt, text]
  simp only [checkAddress, hex2bin_eq small, marked, if_true, bind, Option.bind]
  rw [List.drop_left' (by decide), size]
  rfl

theorem validateAddress_iff (value : Bytes) :
    validateAddress sha256 value = true ↔ ∃ digits, value = text "0x" ++ digits ∧ digits.length = 50 ∧
      digits.take 2 = text "00" ∧
      resize (sha256 (sha256 ((Common.hex2bin2 digits).take 21))) 4 = (Common.hex2bin2 digits).drop 21 := by
  unfold validateAddress
  constructor
  · intro valid
    simp only [Bool.and_eq_true, decide_eq_true_eq] at valid
    obtain ⟨⟨⟨length, marked⟩, zeros⟩, checked⟩ := valid
    have whole : value = text "0x" ++ value.drop 2 := by rw [← marked, List.take_append_drop]
    have fifty : (value.drop 2).length = 50 := by rw [List.length_drop, length]
    rw [whole, checkAddress_eq fifty] at checked
    exact ⟨value.drop 2, whole, fifty, zeros, by simpa using checked⟩
  · rintro ⟨digits, rfl, fifty, zeros, checked⟩
    simp only [Bool.and_eq_true, decide_eq_true_eq]
    refine ⟨⟨⟨?_, ?_⟩, ?_⟩, ?_⟩
    · rw [List.length_append, fifty]
      rfl
    · exact List.take_left' rfl
    · rwa [List.drop_left' (by decide)]
    · rw [checkAddress_eq fifty, decide_eq_true checked]

theorem lowerCase_eq_zero {c : UInt8} (zero : lowerCase c = 48) : c = 48 := by
  revert c
  apply forall_byte
  decide +kernel

theorem bin2hex_lowerCase (b : Bytes) : (StringUtils.bin2hex b).map lowerCase = StringUtils.bin2hex b := by
  have digit : ∀ d : Fin 16, lowerCase (hexDigit d.val) = hexDigit d.val := by decide
  refine (List.map_congr_left fun c member => ?_).trans (List.map_id _)
  obtain ⟨d, small, rfl⟩ := bin2hex_digit member
  exact digit ⟨d, small⟩

theorem validateAddress_variant {body check : Bytes} (size : body.length = 20)
    (sums : resize (sha256 (sha256 (0 :: body))) 4 = check) (variant : Bytes)
    (same : variant.map lowerCase = StringUtils.bin2hex (0 :: body ++ check)) :
    validateAddress sha256 (text "0x" ++ variant) = true := by
  have four : check.length = 4 := by
    rw [← sums, resize, List.length_append, List.length_take, List.length_replicate]
    omega
  have bytes : Common.hex2bin2 variant = 0 :: body ++ check := by
    rw [← hex2bin2_map hexValue_lowerCase, same, hex2bin2_bin2hex]
  have front : (0 :: body).length = 21 := by rw [List.length_cons, size]
  have fifty : variant.length = 50 := by
    have length := congrArg List.length same
    rw [List.length_map, bin2hex_length, List.length_append, front, four] at length
    exact length
  have zeros : variant.take 2 = text "00" := by
    have start := congrArg (List.take 2) same
    rw [← List.map_take, List.cons_append, bin2hex_cons] at start
    match variant, fifty, start with
    | c :: d :: rest, _, start =>
        obtain ⟨high, low⟩ : lowerCase c = 48 ∧ lowerCase d = 48 := by simpa [hexDigit] using start
        rw [lowerCase_eq_zero high, lowerCase_eq_zero low]
        rfl
  refine (validateAddress_iff _).mpr ⟨variant, rfl, fifty, zeros, ?_⟩
  rw [bytes, List.take_left' front, List.drop_left' front, sums]

theorem generated_addresses_validate (digests : Digests) (publicKey : Bytes) (long : 65 ≤ publicKey.length) :
    ∃ address hex, generateAddress digests publicKey = some address ∧ Crypto.bin2hex address = some hex ∧
      validateAddress digests.sha256 (text "0x" ++ hex) = true ∧
      ∀ variant, variant.map lowerCase = hex → validateAddress digests.sha256 (text "0x" ++ variant) = true := by
  let body := digests.ripemd160 (digests.sha256 (publicKey.drop (publicKey.length - 65)))
  let check := (digests.sha256 (digests.sha256 (0 :: body))).take 4
  have size : body.length = 20 := digests.ripemd160_length _
  have sums : resize (digests.sha256 (digests.sha256 (0 :: body))) 4 = check := by
    rw [resize, digests.sha256_length]
    exact List.append_nil _
  have generated : generateAddress digests publicKey = some (0 :: body ++ check) := if_neg (by omega)
  have written : Crypto.bin2hex (0 :: body ++ check) = some (StringUtils.bin2hex (0 :: body ++ check)) := by
    refine crypto_bin2hex_eq ?_
    rw [List.length_append, List.length_cons, size, List.length_take, digests.sha256_length]
    norm_num
  exact ⟨_, _, generated, written, validateAddress_variant size sums _ (bin2hex_lowerCase _),
    fun variant same => validateAddress_variant size sums variant same⟩

theorem generated_address_of_zero_key :
    let digests : Digests := ⟨fun _ => List.replicate 32 171, fun _ => List.replicate 20 205, by simp, by simp⟩
    validateAddress digests.sha256 (text "0x" ++ text "00cdCDcdcdcdcdcdcdcdcdcdcdcdcdcdcdcdcdcdcdabABabAb") = true := by
  intro digests
  obtain ⟨address, hex, generated, written, -, variants⟩ :=
    generated_addresses_validate digests (List.replicate 65 0) (by simp)
  refine variants (text "00cdCDcdcdcdcdcdcdcdcdcdcdcdcdcdcdcdcdcdcdabABabAb") ?_
  obtain rfl : _ = address := Option.some.inj generated
  obtain rfl := Option.some.inj ((crypto_bin2hex_eq (by decide)).symm.trans written)
  rw [StringUtils.bin2hex, funext hexPair_eq]
  decide

/-! ## Accepted addresses -/

def fetchBalanceRequest (addr : Bytes) : Bytes :=
  text "\x7b\"id\":1, \"version\":\"2.0\",\"method\":\"fetch-balance\", \"params\":\x7b\"address\":\"" ++ addr ++
    text "\"\x7d\x7d"

def fetchHistoryRequest (addr : Bytes) (begin : UInt32) : Bytes :=
  text "\x7b\"id\":1, \"version\":\"2.0\",\"method\":\"fetch-history\", \"params\":\x7b\"address\":\"" ++ addr ++
    text "\", \"beginTx\":" ++ decimal begin.toNat ++ text ",\"countTxs\":10\x7d\x7d"

def HexAddress (s : Bytes) : Prop :=
  ∃ digits, s = text "0x00" ++ digits ∧ digits.length = 48 ∧ ∀ c ∈ digits, isHexDigit c = true

structure Harmless (s : Bytes) : Prop where
  hex : HexAddress s
  files : 47 ∉ Wallet.prvFile s ∧ 47 ∉ Wallet.pubFile s
  balance : (fetchBalanceRequest s).count 34 = (fetchBalanceRequest []).count 34
  history : ∀ begin, (fetchHistoryRequest s begin).count 34 = (fetchHistoryRequest [] begin).count 34

theorem isHexDigit_plain {c : UInt8} (digit : isHexDigit c = true) : c ≠ 34 ∧ c ≠ 47 := by
  revert c
  apply forall_byte
  decide +kernel

theorem HexAddress.harmless {s : Bytes} (hex : HexAddress s) : Harmless s := by
  obtain ⟨digits, rfl, length, plain⟩ := hex
  have slash : 47 ∉ text "0x00" ++ digits := by
    rw [List.mem_append]
    rintro (start | inside)
    · exact absurd start (by decide)
    · exact (isHexDigit_plain (plain _ inside)).2 rfl
  have quote : (text "0x00" ++ digits).count 34 = 0 := by
    rw [List.count_eq_zero, List.mem_append]
    rintro (start | inside)
    · exact absurd start (by decide)
    · exact (isHexDigit_plain (plain _ inside)).1 rfl
  refine ⟨⟨digits, rfl, length, plain⟩, ⟨?_, ?_⟩, ?_, ?_⟩
  · rw [Wallet.prvFile, List.mem_append]
    exact not_or.mpr ⟨slash, by decide⟩
  · rw [Wallet.pubFile, List.mem_append]
    exact not_or.mpr ⟨slash, by decide⟩
  · simp only [fetchBalanceRequest, List.count_append, quote, List.count_nil]
  · intro begin
    simp only [fetchHistoryRequest, List.count_append, quote, List.count_nil]

theorem accepted_addresses_harmless_iff (s : Bytes) :
    (∀ sha256, (∀ data, (sha256 data).length = 32) → validateAddress sha256 s = true → Harmless s) ↔
    ∀ digits, s = text "0x00" ++ digits → digits.length = 48 → ∀ c ∈ digits, isHexDigit c = true := by
  constructor
  · rintro accepted digits rfl length c member
    let bytes := Common.hex2bin2 (text "00" ++ digits)
    let hash := bytes.drop 21 ++ List.replicate 28 0
    have fifty : (text "00" ++ digits).length = 50 := by
      rw [List.length_append, length]
      rfl
    have four : (bytes.drop 21).length = 4 := by rw [List.length_drop, hex2bin2_length, fifty]
    have sized : hash.length = 32 := by rw [List.length_append, four, List.length_replicate]
    have checksum : resize hash 4 = bytes.drop 21 := by
      rw [resize, sized, List.take_left' four]
      exact List.append_nil _
    have valid : validateAddress (fun _ => hash) (text "0x00" ++ digits) = true :=
      (validateAddress_iff _).mpr ⟨text "00" ++ digits, rfl, fifty, List.take_left' rfl, checksum⟩
    obtain ⟨digits', same, -, hex⟩ := (accepted _ (fun _ => sized) valid).hex
    exact hex c (List.append_cancel_left same ▸ member)
  · intro hex sha256 _ valid
    obtain ⟨digits, rfl, fifty, zeros, -⟩ := (validateAddress_iff s).mp valid
    have whole : text "0x" ++ digits = text "0x00" ++ digits.drop 2 := by
      rw [show text "0x00" = text "0x" ++ text "00" from rfl, ← zeros, List.append_assoc, List.take_append_drop]
    have length : (digits.drop 2).length = 48 := by rw [List.length_drop, fifty]
    exact HexAddress.harmless ⟨digits.drop 2, whole, length, hex _ whole length⟩

/-- Whatever the hash is, with its checksum behind them a slash and a quote pass for two zeros. -/
theorem validateAddress_slash_and_quote (sized : ∀ data, (sha256 data).length = 32) :
    validateAddress sha256 (text "0x00/\"" ++ (List.replicate 38 48 ++
      StringUtils.bin2hex ((sha256 (sha256 (List.replicate 21 0))).take 4))) = true := by
  let check := (sha256 (sha256 (List.replicate 21 0))).take 4
  let front := text "00/\"" ++ List.replicate 38 48
  have four : check.length = 4 := by rw [List.length_take, sized]; rfl
  have decoded : Common.hex2bin2 (front ++ StringUtils.bin2hex check) = List.replicate 21 0 ++ check := by
    rw [hex2bin2_append (by decide), hex2bin2_bin2hex]
    congr 1
  refine (validateAddress_iff _).mpr ⟨front ++ StringUtils.bin2hex check, rfl, ?_, rfl, ?_⟩
  · rw [List.length_append, bin2hex_length, four]
    decide
  · rw [decoded, List.take_left' (by simp), List.drop_left' (by simp), resize, sized]
    exact List.append_nil _

theorem slash_and_quote_accepted :
    let s := text "0x00/\"" ++ List.replicate 46 48
    validateAddress (fun _ => List.replicate 32 0) s = true ∧ ¬Harmless s := by
  refine ⟨?_, fun harmless => ?_⟩
  · have sized (data : Bytes) : ((fun _ => List.replicate 32 0 : Bytes → Bytes) data).length = 32 := rfl
    have valid := validateAddress_slash_and_quote sized
    rw [StringUtils.bin2hex, funext hexPair_eq] at valid
    exact valid
  · obtain ⟨digits, whole, -, hex⟩ := harmless.hex
    have rest : text "/\"" ++ List.replicate 46 48 = digits := congrArg (List.drop 4) whole
    exact absurd (hex 47 (rest ▸ by decide)) (by decide)

end FullnodeClient.Tx
