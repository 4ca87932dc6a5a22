import FullnodeClient.Tx.Sign

/-!
# Transactions written and read back

The signed bytes determine the fields, and the parser recovers the fields from the hex text of the
signed bytes as long as there is data.
-/

namespace FullnodeClient.Tx
open FullnodeClient.Lib FullnodeClient.Text

namespace TxFields

theorem encode_injective {a b : TxFields} (same : a.encode = b.encode) : a = b := by
  have delimited (x y : UInt64) {r s : Bytes}
      (h : writeCompactInt x.toNat ++ r = writeCompactInt y.toNat ++ s) : x = y ∧ r = s := by
    obtain ⟨value, rest⟩ := writeCompactInt_delimited x.toNat y.toNat x.toNat_lt y.toNat_lt r s h
    exact ⟨UInt64.toNat_inj.mp value, rest⟩
  simp only [encode, List.append_assoc] at same
  obtain ⟨receiver, same⟩ := List.append_inj same (a.toAddr_length.trans b.toAddr_length.symm)
  obtain ⟨value, same⟩ := delimited _ _ same
  obtain ⟨fee, same⟩ := delimited _ _ same
  obtain ⟨nonce, same⟩ := delimited _ _ same
  obtain ⟨-, data⟩ := writeCompactInt_delimited _ _ (by omega) (by omega) _ _ same
  exact TxFields.ext receiver value fee nonce data

end TxFields

theorem signed_bytes_unambiguous (a b : TxFields) :
    (∀ bytes, format "xUUUux".toList a.args [] = some bytes →
      format "xUUUux".toList b.args [] = some bytes → a = b) ∧
    (a.encode = b.encode → a = b) := by
  refine ⟨?_, TxFields.encode_injective⟩
  intro bytes builtA builtB
  rw [TxFields.format_args] at builtA builtB
  split at builtA
  case isTrue =>
    split at builtB
    case isTrue => exact TxFields.encode_injective (Option.some.inj (builtA.trans builtB.symm))
    case isFalse => cases builtB
  case isFalse => cases builtA

theorem signed_bytes_unambiguous_two_bytes :
    format "xUUUux".toList (TxFields.mk (List.replicate 25 0) 0 0 0 [1, 2] rfl).args [] =
      some (List.replicate 28 0 ++ [2, 1, 2]) ∧
    TxFields.mk (List.replicate 25 0) 0 0 0 [1, 2] rfl = ⟨List.replicate 25 0, 0, 0, 0, [1] ++ [2], rfl⟩ :=
  ⟨rfl, (signed_bytes_unambiguous _ _).1 (List.replicate 28 0 ++ [2, 1, 2]) rfl rfl⟩

namespace TxFields

theorem encode_length (tx : TxFields) :
    tx.data.length ≤ tx.encode.length ∧ tx.encode.length ≤ tx.data.length + 61 := by
  have value := (writeCompactInt_length tx.value.toNat_lt).2
  have fee := (writeCompactInt_length tx.fee.toNat_lt).2
  have nonce := (writeCompactInt_length tx.nonce.toNat_lt).2
  have bound : tx.data.length % 2 ^ 32 < 2 ^ 64 := by omega
  have size := (writeCompactInt_length bound).2
  simp only [encode, List.length_append, tx.toAddr_length]
  omega

theorem encode_ne_nil (tx : TxFields) : tx.encode ≠ [] := by
  intro empty
  have length := congrArg List.length empty
  simp [encode, tx.toAddr_length] at length

/-- The parser on the hex text of the layout. Without data the last length has nothing after it, and the
reader of a one-byte integer asks for four characters. -/
theorem parseTansaction_encode (tx : TxFields) (small : tx.data.length < 2 ^ 32) (beyond : Bytes) :
    parseTansaction (StringView.of (StringUtils.bin2hex tx.encode) beyond) =
      if tx.data = [] then .error (.invalidArgument "Can not read compact uint8")
      else .ok ⟨tx.address, tx.value.toNat, tx.fee.toNat, tx.nonce.toNat, tx.data.length,
        StringUtils.bin2hex tx.data⟩ := by
  have receiver : (StringUtils.bin2hex tx.toAddr).length = 50 := by rw [bin2hex_length, tx.toAddr_length]
  have dataLength := bin2hex_length tx.data
  -- an integer that is followed by another one is read back
  have read {value next : Nat} (bound : value < 2 ^ 64) (nextBound : next < 2 ^ 64) {rest : Bytes}
      (fits : rest.length < 2 ^ 50) :
      readCompactInt (StringView.of (StringUtils.bin2hex (writeCompactInt value) ++
        (StringUtils.bin2hex (writeCompactInt next) ++ rest)) beyond) =
      .ok (value, StringView.of (StringUtils.bin2hex (writeCompactInt next) ++ rest) beyond) := by
    have width := writeCompactInt_length nextBound
    rw [readCompactInt_write bound (by simp [bin2hex_length]; omega), if_neg (by simp [bin2hex_length]; omega)]
  have fee := writeCompactInt_length tx.fee.toNat_lt
  have nonce := writeCompactInt_length tx.nonce.toNat_lt
  have bound : tx.data.length < 2 ^ 64 := by omega
  have size := writeCompactInt_length bound
  obtain ⟨-, whole⟩ := tx.encode_length
  have pieces : StringUtils.bin2hex tx.encode =
      StringUtils.bin2hex tx.toAddr ++ (StringUtils.bin2hex (writeCompactInt tx.value.toNat) ++
        (StringUtils.bin2hex (writeCompactInt tx.fee.toNat) ++
          (StringUtils.bin2hex (writeCompactInt tx.nonce.toNat) ++
            (StringUtils.bin2hex (writeCompactInt tx.data.length) ++ StringUtils.bin2hex tx.data)))) := by
    simp only [encode, bin2hex_append, List.append_assoc, Nat.mod_eq_of_lt small]
  have fits := congrArg List.length pieces
  rw [bin2hex_length] at fits
  rw [parseTansaction, pieces, StringView.read_of (by simp; omega), StringView.removePrefix_of (by simp; omega)
    (by rw [← fits]; omega), List.take_left' receiver, List.drop_left' receiver]
  simp only [List.length_append] at fits
  simp only [bind, Except.bind]
  rw [read tx.value.toNat_lt tx.fee.toNat_lt (by simp only [List.length_append]; omega)]
  simp only
  rw [read tx.fee.toNat_lt tx.nonce.toNat_lt (by simp only [List.length_append]; omega)]
  simp only
  rw [read tx.nonce.toNat_lt (by omega) (by omega)]
  simp only
  rw [readCompactInt_write (by omega) (by omega)]
  by_cases empty : tx.data = []
  · simp [empty, StringUtils.bin2hex]
  · have positive := List.length_pos_iff.mpr empty
    have view : (StringView.of (StringUtils.bin2hex tx.data) beyond).size = (StringUtils.bin2hex tx.data).length := rfl
    rw [if_neg (by omega), if_neg empty]
    simp only [view]
    rw [if_neg (by simp only [maxSize]; omega), StringView.read_of le_rfl, List.take_length]
    rfl

end TxFields

def isHexDigit (c : UInt8) : Bool := (48 ≤ c && c ≤ 57) || (97 ≤ c && c ≤ 102) || (65 ≤ c && c ≤ 70)

structure AddressText where
  digits : Bytes
  length : digits.length = 50
  hex : ∀ c ∈ digits, isHexDigit c = true

namespace AddressText

def text (a : AddressText) : Bytes := Lib.text "0x" ++ a.digits

def lower (a : AddressText) : Bytes := Lib.text "0x" ++ a.digits.map lowerCase

end AddressText

theorem isHexDigit_facts {c : UInt8} (digit : isHexDigit c = true) :
    c ≠ 0 ∧ c ≠ 120 ∧ hexDigit (Common.hexValue c) = lowerCase c := by
  revert c
  apply forall_byte
  decide +kernel

theorem bin2hex_hex2bin2 {s : Bytes} (even : s.length % 2 = 0) (digits : ∀ c ∈ s, isHexDigit c = true) :
    StringUtils.bin2hex (Common.hex2bin2 s) = s.map lowerCase := by
  induction s using Common.hex2bin2.induct with
  | case1 => rfl
  | case2 c => simp at even
  | case3 c d rest ih =>
      have even' : rest.length % 2 = 0 := by simp only [List.length_cons] at even; omega
      have high := hexValue_lt c
      have low := hexValue_lt d
      have quotient : (16 * Common.hexValue c + Common.hexValue d) / 16 = Common.hexValue c := by omega
      have remainder : (16 * Common.hexValue c + Common.hexValue d) % 16 = Common.hexValue d := by omega
      rw [Common.hex2bin2, bin2hex_cons, hexByte_toNat, quotient, remainder, ih even' (fun x hx => digits x (by simp [hx])),
        (isHexDigit_facts (digits c (by simp))).2.2, (isHexDigit_facts (digits d (by simp))).2.2]
      rfl

theorem AddressText.formatHex_text (a : AddressText) :
    formatHex a.text = some (Common.hex2bin2 a.digits) := by
  have nonempty : a.digits ≠ [] := by
    intro empty
    have := a.length
    simp [empty] at this
  exact formatHex_address nonempty (fun zero => (isHexDigit_facts (a.hex _ zero)).1 rfl)
    (hasPrefix0x_eq_false fun x => (isHexDigit_facts (a.hex _ x)).2.1 rfl) (by rw [a.length]; norm_num)

def AddressText.request (a : AddressText) (value fee nonce : UInt64) (data : Bytes) : TxFields :=
  ⟨Common.hex2bin2 a.digits, value, fee, nonce, data, by rw [hex2bin2_length, a.length]⟩

theorem AddressText.request_address (a : AddressText) (value fee nonce : UInt64) (data : Bytes) :
    (a.request value fee nonce data).address = a.lower := by
  rw [TxFields.address, request, bin2hex_hex2bin2 (by rw [a.length]) a.hex, lower]

def CryptoLib.Signs (crypto : CryptoLib) (prvKey : Bytes) : Prop :=
  ∀ data, data.length < 2 ^ 31 → ∃ sign, crypto.sign prvKey data = some sign ∧ sign.length < 2 ^ 32

theorem genSign_request {crypto : CryptoLib} {prvKey : Bytes} (signs : crypto.Signs prvKey) (a : AddressText)
    (value fee nonce : UInt64) (data : Bytes) :
    ((a.request value fee nonce data).encode.length < 2 ^ 31 ∧ ∃ sign, genSign crypto prvKey "xUUUux"
        (requestArgs a.text value.toNat fee.toNat nonce.toNat data) =
      some (some (StringUtils.bin2hex (a.request value fee nonce data).encode, sign))) ∨
    (2 ^ 31 ≤ (a.request value fee nonce data).encode.length ∧ genSign crypto prvKey "xUUUux"
        (requestArgs a.text value.toNat fee.toNat nonce.toNat data) = none) := by
  have built : format "xUUUux".toList (requestArgs a.text value.toNat fee.toNat nonce.toNat data) [] =
      if data.length < 2 ^ 31 then some (a.request value fee nonce data).encode else none := by
    rw [format_request _ value.toNat_lt fee.toNat_lt nonce.toNat_lt, a.formatHex_text]
    rfl
  obtain ⟨least, most⟩ := (a.request value fee nonce data).encode_length
  have whole : (a.request value fee nonce data).data = data := rfl
  rw [whole] at least most
  have nonempty := (a.request value fee nonce data).encode_ne_nil
  by_cases small : (a.request value fee nonce data).encode.length < 2 ^ 31
  · obtain ⟨sign, signed, short⟩ := signs _ small
    rw [if_pos (by omega)] at built
    exact .inl ⟨small, _, genSign_eq built nonempty signed small short⟩
  · refine .inr ⟨not_lt.mp small, genSign_eq_none fun layout formatted => ?_⟩
    rw [built, Option.ite_none_right_eq_some, Option.some.injEq] at formatted
    obtain ⟨short, rfl⟩ := formatted
    exact ⟨nonempty, by omega, not_lt.mp small⟩

theorem parse_genSign_iff (crypto : CryptoLib) (prvKey : Bytes) (signs : crypto.Signs prvKey) (a : AddressText)
    (value fee nonce : UInt64) (data : Bytes) (small : data.length < 2 ^ 32) (beyond : Bytes) :
    (∃ transaction sign,
      genSign crypto prvKey "xUUUux" (requestArgs a.text value.toNat fee.toNat nonce.toNat data) =
        some (some (transaction, sign)) ∧
      parseTansaction (StringView.of transaction beyond) =
        .ok ⟨a.lower, value.toNat, fee.toNat, nonce.toNat, data.length, Common.toHex data⟩) ↔
    0 < data.length ∧ (a.request value fee nonce data).encode.length < 2 ^ 31 := by
  have parsed : parseTansaction (StringView.of (StringUtils.bin2hex (a.request value fee nonce data).encode) beyond) =
      if data = [] then .error (.invalidArgument "Can not read compact uint8")
      else .ok ⟨a.lower, value.toNat, fee.toNat, nonce.toNat, data.length, Common.toHex data⟩ := by
    rw [TxFields.parseTansaction_encode _ small, a.request_address, toHex_eq]
    rfl
  rcases genSign_request signs a value fee nonce data with ⟨short, sign, built⟩ | ⟨long, built⟩
  · constructor
    · rintro ⟨transaction, sign', built', read⟩
      obtain ⟨rfl, rfl⟩ : transaction = _ ∧ sign' = sign := by simpa using built'.symm.trans built
      refine ⟨List.length_pos_iff.mpr fun empty => ?_, short⟩
      rw [parsed, if_pos empty] at read
      cases read
    · rintro ⟨positive, -⟩
      refine ⟨_, sign, built, ?_⟩
      rw [parsed, if_neg (List.length_pos_iff.mp positive)]
  · constructor
    · rintro ⟨transaction, sign, built', -⟩
      rw [built] at built'
      cases built'
    · intro short
      omega

def AddressText.zero : AddressText := ⟨List.replicate 50 48, rfl, by simp [isHexDigit]⟩

theorem parse_genSign_one_byte :
    ∃ transaction sign,
      genSign ⟨fun _ _ => some [1], id⟩ [] "xUUUux" (requestArgs AddressText.zero.text 5 250 70000 [7]) =
        some (some (transaction, sign)) ∧
      parseTansaction (StringView.of transaction []) =
        .ok ⟨AddressText.zero.lower, 5, 250, 70000, 1, text "07"⟩ :=
  (parse_genSign_iff ⟨fun _ _ => some [1], id⟩ [] (fun _ _ => ⟨[1], rfl, by decide⟩) .zero 5 250 70000 [7]
    (by decide) []).mpr (by decide)

theorem parse_genSign_empty_data :
    genSign ⟨fun _ _ => some [1], id⟩ [] "xUUUux" (requestArgs AddressText.zero.text 0 0 0 []) =
      some (some (List.replicate 58 48, text "01")) ∧
    parseTansaction (StringView.of (List.replicate 58 48) []) =
      .error (.invalidArgument "Can not read compact uint8") := by
  constructor
  · rfl
  · rfl

end FullnodeClient.Tx
