import FullnodeClient.Lib.Log
import FullnodeClient.Rpc.Json
import FullnodeClient.Tx.Sign

/-!
# Sending a transaction given as text

The raw branch of `send_tx_handler::prepare_params` reads one string in three ways: `parse_tansaction` takes the
reported fields from its characters, `hex2bin` makes the bytes to sign, and the `x` conversion of `make_tx`
makes the bytes to hash.
-/

namespace FullnodeClient.Tx
open FullnodeClient.Lib FullnodeClient.Text FullnodeClient.Rpc

structure Keys where
  prvKey : Bytes
  pubKey : Bytes
deriving DecidableEq, Repr

structure RawSend where
  toAddr : Bytes
  value : Nat
  fee : Nat
  nonce : Nat
  data : Bytes
  sign : Bytes
  hash : Bytes
  signed : Bytes
  hashed : Bytes
deriving DecidableEq, Repr

inductive RawOutcome
  | undefined
  | refused (thrown : Thrown)
  | made (r : RawSend)

/-- The end of the raw branch: the signature, and the hash, for which `make_tx` begins with the transaction. -/
def signRaw (crypto : CryptoLib) (keys : Keys) (transaction : Bytes) (parsed : ParsedTx) (dataBin : Bytes) :
    RawOutcome :=
  match signData crypto keys.prvKey dataBin with
  | none => .undefined
  | some none => .refused (.std (text "CRYPTO_sign_data"))
  | some (some signBin) =>
      match Crypto.bin2hex signBin, formatHex transaction with
      | some sign, some hashed =>
          match makeTx crypto "xuxux" [.str transaction, .int (sign.length / 2), .str sign,
            .int (keys.pubKey.length / 2), .str keys.pubKey] with
          | none => .undefined
          | some none => .refused (invalidParam "failed on generate tx")
          | some (some hash) => .made
              ⟨parsed.toAddr, parsed.value, parsed.fee, parsed.nonce, parsed.data, sign, hash, dataBin, hashed⟩
      | _, _ => .undefined

/-- `prepare_params` after `check_params` returned 1. The string is followed by `beyond` in memory. -/
def prepareTransaction (crypto : CryptoLib) (keys : Keys) (transaction beyond : Bytes) : RawOutcome :=
  match parseTansaction (StringView.of transaction beyond) with
  | .error .segmentationFault => .undefined
  | .error _ => .refused (invalidParam "failed on parse transaction")
  | .ok parsed => (Crypto.hex2bin transaction).elim .undefined (signRaw crypto keys transaction parsed)

def prepareRaw (crypto : CryptoLib) (keys : Keys) (transaction beyond : Bytes) : Option RawSend :=
  match prepareTransaction crypto keys transaction beyond with
  | .made r => some r
  | .undefined | .refused _ => none

def RawSend.SignsWhatItReports (r : RawSend) : Prop :=
  ∃ tx : TxFields, formatHex r.toAddr = some tx.toAddr ∧ tx.value.toNat = r.value ∧ tx.fee.toNat = r.fee ∧
    tx.nonce.toNat = r.nonce ∧ formatHex r.data = some tx.data ∧ r.signed = tx.encode ∧ r.hashed = tx.encode

theorem readTagged_size {size : Nat} {what : String} {buf rest : StringView} {value : Nat}
    (small : size ≤ 8) (fits : buf.size < 2 ^ 64) (ok : readTagged size what buf = .ok (value, rest)) :
    buf.size ≤ rest.size + 18 ∧ rest.size < 2 ^ 64 := by
  rw [readTagged] at ok
  split at ok
  case isTrue => cases ok
  case isFalse enough =>
    obtain ⟨tmp, -, ok⟩ := bind_eq_ok.mp ok
    cases ok
    simp only [StringView.removePrefix]
    omega

theorem readCompactInt_size {buf rest : StringView} {value : Nat} (fits : buf.size < 2 ^ 64)
    (ok : readCompactInt buf = .ok (value, rest)) : buf.size ≤ rest.size + 18 ∧ rest.size < 2 ^ 64 := by
  rw [readCompactInt] at ok
  split at ok
  case isTrue =>
    cases ok
    omega
  case isFalse =>
    obtain ⟨tag, -, ok⟩ := bind_eq_ok.mp ok
    split_ifs at ok
    · exact readTagged_size (by norm_num) fits ok
    · exact readTagged_size (by norm_num) fits ok
    · exact readTagged_size (by norm_num) fits ok
    · obtain ⟨tmp, -, ok⟩ := bind_eq_ok.mp ok
      cases ok
      simp only [StringView.removePrefix]
      omega

def WholeInt (t : Bytes) : Prop := t.length < 2 ∨ max 4 (2 + 2 * tagBytes t) ≤ t.length

theorem readCompactInt_inside {t beyond : Bytes} {value : Nat} {rest : StringView} (fits : t.length < 2 ^ 64)
    (ok : readCompactInt (StringView.of t beyond) = .ok (value, rest)) :
    value = intValue (intText t) ∧ rest = StringView.of (intRest t) beyond ∧ WholeInt t := by
  by_cases two : t.length < 2
  · have unread : (StringView.of t beyond).size < 2 := two
    rw [readCompactInt, if_pos unread] at ok
    cases ok
    rw [intText, intRest, if_pos two, if_pos two]
    exact ⟨rfl, rfl, .inl two⟩
  · rw [readCompactInt_of (by omega) fits] at ok
    split at ok
    case isTrue => cases ok
    case isFalse whole =>
      cases ok
      exact ⟨rfl, rfl, .inr (by omega)⟩

def intWord (t : Bytes) (k : Nat) : Bytes := intText (intRest^[k] (t.drop 50))

def dataText (t : Bytes) : Bytes := intRest^[4] (t.drop 50)

theorem intRest_iterate_length_le (k : Nat) (t : Bytes) : (intRest^[k] t).length ≤ t.length := by
  induction k with
  | zero => exact le_rfl
  | succ k ih =>
      rw [Function.iterate_succ_apply', intRest]
      split
      case isTrue => exact ih
      case isFalse =>
        rw [List.length_drop]
        omega

theorem parseTansaction_ok {t beyond : Bytes} {parsed : ParsedTx} (fits : t.length < 2 ^ 63)
    (ok : parseTansaction (StringView.of t beyond) = .ok parsed) :
    50 ≤ t.length ∧ (∀ k < 4, WholeInt (intRest^[k] (t.drop 50))) ∧
    parsed = ⟨text "0x" ++ t.take 50, intValue (intWord t 0), intValue (intWord t 1), intValue (intWord t 2),
      intValue (intWord t 3), dataText t⟩ := by
  obtain ⟨address, readAddress, ok⟩ := bind_eq_ok.mp ok
  obtain ⟨⟨value, buf1⟩, read1, ok⟩ := bind_eq_ok.mp ok
  obtain ⟨⟨fee, buf2⟩, read2, ok⟩ := bind_eq_ok.mp ok
  obtain ⟨⟨nonce, buf3⟩, read3, ok⟩ := bind_eq_ok.mp ok
  obtain ⟨⟨dataSize, buf4⟩, read4, ok⟩ := bind_eq_ok.mp ok
  dsimp only at ok
  have start : ((StringView.of t beyond).removePrefix 50).size = (t.length + 2 ^ 64 - 50) % 2 ^ 64 := rfl
  split at ok
  case isTrue => cases ok
  case isFalse bounded =>
    obtain ⟨data, readData, ok⟩ := bind_eq_ok.mp ok
    cases ok
    have long : 50 ≤ t.length := by
      -- on a shorter string the size wraps, and the last assignment refuses it
      by_contra short
      have size1 := readCompactInt_size (by omega) read1
      have size2 := readCompactInt_size (by omega) read2
      have size3 := readCompactInt_size (by omega) read3
      have size4 := readCompactInt_size (by omega) read4
      simp only [maxSize] at bounded
      omega
    have inside {k value : Nat} {rest : StringView}
        (read : readCompactInt (StringView.of (intRest^[k] (t.drop 50)) beyond) = .ok (value, rest)) :
        value = intValue (intWord t k) ∧ rest = StringView.of (intRest^[k + 1] (t.drop 50)) beyond ∧
          WholeInt (intRest^[k] (t.drop 50)) := by
      have short := intRest_iterate_length_le k (t.drop 50)
      rw [List.length_drop] at short
      rw [Function.iterate_succ_apply']
      exact readCompactInt_inside (by omega) read
    rw [StringView.read_of long] at readAddress
    rw [StringView.removePrefix_of long (by omega)] at read1
    obtain ⟨value0, rest0, whole0⟩ := inside (k := 0) read1
    rw [rest0] at read2
    obtain ⟨value1, rest1, whole1⟩ := inside read2
    rw [rest1] at read3
    obtain ⟨value2, rest2, whole2⟩ := inside read3
    rw [rest2] at read4
    obtain ⟨value3, rest3, whole3⟩ := inside read4
    have whole : buf4.read buf4.size = .ok (dataText t) := by
      rw [rest3, StringView.size_of, StringView.read_of le_rfl, List.take_length, dataText]
    refine ⟨long, ?_, ?_⟩
    · intro k bound
      interval_cases k
      · exact whole0
      · exact whole1
      · exact whole2
      · exact whole3
    · rw [value0, value1, value2, value3, ← Except.ok.inj readAddress, Except.ok.inj (readData.symm.trans whole)]

/-! ## Integers out of step

An integer written as `FA` in upper case is read as the byte 250, for which the layout has three bytes. What
follows can bring the text and the layout together again.
-/

inductive IntShape : Nat → Bytes → Nat → Prop
  | byte (x : UInt8) : IntShape 0 [x] x.toNat
  | tagged (tag : UInt8) (body : Bytes) : (tag, body.length) ∈ [(250, 2), (251, 4), (252, 8)] →
      IntShape body.length (tag :: body) (valueLE body)

theorem tagged_width {tag : UInt8} {n : Nat} (width : (tag, n) ∈ [((250 : UInt8), 2), (251, 4), (252, 8)]) :
    (tag = 250 ∧ n = 2) ∨ (tag = 251 ∧ n = 4) ∨ (tag = 252 ∧ n = 8) := by
  simpa only [List.mem_cons, Prod.mk.injEq, List.not_mem_nil, or_false] using width

theorem intShape {w : Bytes} (whole : w.length = 2 + 2 * tagBytes w) :
    IntShape (tagBytes w) (Common.hex2bin2 w) (intValue w) := by
  obtain ⟨c, d, body, rfl⟩ : ∃ c d body, w = c :: d :: body := by
    match w, whole with
    | [], whole => simp at whole; omega
    | [c], whole => simp at whole; omega
    | c :: d :: body, _ => exact ⟨c, d, body, rfl⟩
  have bytes : Common.hex2bin2 (c :: d :: body) = hexByte c d :: Common.hex2bin2 body := rfl
  have length : (Common.hex2bin2 body).length = tagBytes (c :: d :: body) := by
    simp only [List.length_cons] at whole
    rw [hex2bin2_length]
    omega
  by_cases plain : tagBytes (c :: d :: body) = 0
  · obtain rfl : body = [] := List.length_eq_zero_iff.mp (by simp only [List.length_cons] at whole; omega)
    rw [intValue, if_pos plain, plain]
    simpa [Common.hex2bin2, valueLE] using IntShape.byte (hexByte c d)
  · rw [intValue, if_neg plain, bytes, ← length]
    apply IntShape.tagged
    rw [length]
    unfold tagBytes at plain ⊢
    split_ifs at plain ⊢ with fa fb fc
    · cases fa; decide
    · cases fb; decide
    · cases fc; decide
    · exact absurd rfl plain

theorem IntShape.value_lt {n v : Nat} {b : Bytes} (shape : IntShape n b v) : v < 2 ^ 64 := by
  cases shape with
  | byte x => have := x.toNat_lt; omega
  | tagged tag body width =>
      refine (valueLE_lt body).trans_le ?_
      rw [show (2 : Nat) ^ 64 = 256 ^ 8 by norm_num]
      apply Nat.pow_le_pow_right (by norm_num)
      replace width := tagged_width width
      omega

theorem IntShape.value_eq {n v : Nat} {b : Bytes} (shape : IntShape n b v) :
    v = if b.length = 1 then valueLE b else valueLE b.tail := by
  cases shape with
  | byte x => simp [valueLE]
  | tagged tag body width =>
      have : body.length ≠ 0 := by
        intro empty
        simp [empty] at width
      rw [if_neg (by simpa using this), List.tail_cons]

def CanonicalInt (w : Bytes) : Prop :=
  (tagBytes w = 0 ∧ w.length = 2 ∧ intValue w ≤ 249) ∨ (tagBytes w = 2 ∧ 250 ≤ intValue w) ∨
  (tagBytes w = 4 ∧ 2 ^ 16 ≤ intValue w) ∨ (tagBytes w = 8 ∧ 2 ^ 32 ≤ intValue w)

instance (w : Bytes) : Decidable (CanonicalInt w) := by unfold CanonicalInt; infer_instance

theorem writeCompactInt_of_tag {tag : UInt8} {body rb rc : Bytes}
    (width : (tag, body.length) ∈ [((250 : UInt8), 2), (251, 4), (252, 8)]) (bound : valueLE body < 2 ^ 64)
    (same : tag :: body ++ rb = writeCompactInt (valueLE body) ++ rc) :
    tag :: body = writeCompactInt (valueLE body) := by
  have back := littleEndian_valueLE body
  replace width := tagged_width width
  rcases writeCompactInt_cases _ bound with ⟨small, eq⟩ | ⟨low, high, eq⟩ | ⟨low, high, eq⟩ | ⟨low, high, eq⟩ <;>
    rw [eq] at same ⊢ <;> rcases width with ⟨rfl, length⟩ | ⟨rfl, length⟩ | ⟨rfl, length⟩ <;>
    first
    | (rw [length] at back; rw [back])
    | (have first := congrArg UInt8.toNat (List.cons.inj same).1; simp at first; omega)
    | exact absurd (List.cons.inj same).1 (by decide)

theorem IntShape.level {n v : Nat} {b rb rc : Bytes} (shape : IntShape n b v)
    (same : b ++ rb = writeCompactInt v ++ rc) :
    (b = writeCompactInt v ∧ rb = rc) ∨ (b = [250] ∧ rb = 250 :: 0 :: rc) := by
  have bound := shape.value_lt
  cases shape with
  | byte x =>
      have byte := x.toNat_lt
      by_cases small : x.toNat ≤ 249
      · rw [writeCompactInt_small small, UInt8.ofNat_toNat] at same ⊢
        exact .inl ⟨rfl, (List.cons.inj same).2⟩
      · rw [writeCompactInt_u16 (by omega) (by omega)] at same
        obtain ⟨rfl, rest⟩ := List.cons.inj same
        exact .inr ⟨rfl, rest⟩
  | tagged tag body width =>
      have canonical := writeCompactInt_of_tag width bound same
      rw [← canonical] at same
      exact .inl ⟨canonical, List.append_cancel_left same⟩

theorem IntShape.eq_writeCompactInt_iff {n v : Nat} {b : Bytes} (shape : IntShape n b v) :
    b = writeCompactInt v ↔
      (n = 0 ∧ v ≤ 249) ∨ (n = 2 ∧ 250 ≤ v) ∨ (n = 4 ∧ 2 ^ 16 ≤ v) ∨ (n = 8 ∧ 2 ^ 32 ≤ v) := by
  have bound := shape.value_lt
  cases shape with
  | byte x =>
      rcases writeCompactInt_cases _ bound with ⟨small, eq⟩ | ⟨low, high, eq⟩ | ⟨low, high, eq⟩ | ⟨low, high, eq⟩ <;>
        rw [eq]
      · simp [small]
      all_goals
        simp only [List.cons.injEq]
        constructor
        · rintro ⟨-, length⟩
          simpa using congrArg List.length length
        · intro
          omega
  | tagged tag body width =>
      have limit := valueLE_lt body
      constructor
      · intro same
        replace width := tagged_width width
        have length := congrArg List.length same
        rcases writeCompactInt_cases _ bound with ⟨small, eq⟩ | ⟨low, high, eq⟩ | ⟨low, high, eq⟩ | ⟨low, high, eq⟩ <;>
          rw [eq] at length <;>
          simp only [List.length_cons, List.length_nil, littleEndian_length, Nat.add_right_cancel_iff] at length <;>
          omega
      · intro canonical
        have back := littleEndian_valueLE body
        replace width := tagged_width width
        rcases width with ⟨rfl, length⟩ | ⟨rfl, length⟩ | ⟨rfl, length⟩ <;> rw [length] at back limit canonical
        · rw [writeCompactInt_u16 (by omega) (by omega), back]
        · rw [writeCompactInt_u32 (by omega) (by omega), back]
        · rw [writeCompactInt_u64 (by omega), back]

theorem IntShape.behind {n v : Nat} {b rb rc : Bytes} (shape : IntShape n b v)
    (same : b ++ rb = 250 :: 0 :: (writeCompactInt v ++ rc)) :
    (b = [250, 0, 0] ∧ rb = rc) ∨ (b = [250, 0, 250] ∧ rb = 0 :: 250 :: rc) ∨
    (b = [250] ∧ rb = 0 :: 250 :: 250 :: 0 :: rc) := by
  cases shape with
  | byte x =>
      obtain ⟨rfl, rest⟩ := List.cons.inj same
      exact .inr (.inr ⟨rfl, rest⟩)
  | tagged tag body width =>
      obtain ⟨rfl, rest⟩ := List.cons.inj same
      obtain ⟨y, z, rfl⟩ : ∃ y z, body = [y, z] := List.length_eq_two.mp (by simpa using width)
      obtain ⟨rfl, rest⟩ := List.cons.inj rest
      have byte := z.toNat_lt
      have value : valueLE [0, z] = 256 * z.toNat := by simp [valueLE]
      rw [value] at rest
      by_cases zero : z = 0
      · subst zero
        exact .inl ⟨rfl, (List.cons.inj rest).2⟩
      · have positive : z.toNat ≠ 0 := fun h => zero (UInt8.toNat_inj.mp h)
        have high : 256 * z.toNat / 256 = z.toNat := by omega
        rw [writeCompactInt_u16 (by omega) (by omega)] at rest
        simp [littleEndian, high] at rest
        obtain ⟨rfl, rest⟩ := rest
        exact .inr (.inl ⟨rfl, rest⟩)

theorem IntShape.zero {n v : Nat} {b rb r : Bytes} (shape : IntShape n b v) (same : b ++ rb = 0 :: r) :
    b = [0] ∧ v = 0 ∧ rb = r := by
  cases shape with
  | byte x =>
      obtain ⟨rfl, rest⟩ := List.cons.inj same
      exact ⟨rfl, rfl, rest⟩
  | tagged tag body width =>
      obtain ⟨rfl, -⟩ := List.cons.inj same
      simp at width

/-- How far the layout is ahead of the text. -/
inductive Lag where
  | level
  | fa00
  | zeroFa
deriving DecidableEq, Repr

namespace Lag

def bytes : Lag → Bytes
  | level => []
  | fa00 => [250, 0]
  | zeroFa => [0, 250]

def next : Lag → Bytes → Option Lag
  | level, w => if CanonicalInt w then some level else if Common.hex2bin2 w = [250] then some fa00 else none
  | fa00, w =>
      if Common.hex2bin2 w = [250, 0, 0] then some level
      else if Common.hex2bin2 w = [250, 0, 250] then some zeroFa else none
  | zeroFa, w => if Common.hex2bin2 w = [0] then some fa00 else none

def Closes : Lag → Bytes → Nat → Prop
  | level, w, n => CanonicalInt w ∧ intValue w = n
  | fa00, w, n => n ≤ 249 ∧ Common.hex2bin2 w = [250, 0, UInt8.ofNat n]
  | zeroFa, _, _ => False

instance (lag : Lag) (w : Bytes) (n : Nat) : Decidable (lag.Closes w n) := by
  cases lag <;> unfold Closes <;> infer_instance

end Lag

theorem canonicalInt_iff {w : Bytes} (whole : w.length = 2 + 2 * tagBytes w) :
    CanonicalInt w ↔ Common.hex2bin2 w = writeCompactInt (intValue w) := by
  rw [(intShape whole).eq_writeCompactInt_iff, CanonicalInt]
  refine or_congr_left ⟨fun ⟨plain, _, small⟩ => ⟨plain, small⟩, fun ⟨plain, small⟩ => ⟨plain, ?_, small⟩⟩
  rw [whole, plain]

theorem Lag.next_of_eq {lag : Lag} {w rb rc : Bytes} (whole : w.length = 2 + 2 * tagBytes w)
    (same : Common.hex2bin2 w ++ rb = lag.bytes ++ (writeCompactInt (intValue w) ++ rc)) :
    (∃ lag', lag.next w = some lag' ∧ rb = lag'.bytes ++ rc) ∨
    (lag = .fa00 ∧ rb = 0 :: 250 :: 250 :: 0 :: rc) := by
  have shape := intShape whole
  cases lag with
  | level =>
      rcases shape.level same with ⟨canonical, rest⟩ | ⟨upper, rest⟩
      · exact .inl ⟨.level, if_pos ((canonicalInt_iff whole).mpr canonical), rest⟩
      · have large : ¬ CanonicalInt w := by
          rw [canonicalInt_iff whole, shape.value_eq, upper]
          decide
        exact .inl ⟨.fa00, (if_neg large).trans (if_pos upper), rest⟩
  | fa00 =>
      rcases shape.behind same with ⟨bytes, rest⟩ | ⟨bytes, rest⟩ | ⟨bytes, rest⟩
      · exact .inl ⟨.level, if_pos bytes, rest⟩
      · exact .inl ⟨.zeroFa, (if_neg (by rw [bytes]; decide)).trans (if_pos bytes), rest⟩
      · exact .inr ⟨rfl, rest⟩
  | zeroFa =>
      obtain ⟨bytes, value, rest⟩ := shape.zero same
      rw [value] at rest
      exact .inl ⟨.fa00, if_pos bytes, rest⟩

theorem Lag.eq_of_next {lag lag' : Lag} {w : Bytes} (whole : w.length = 2 + 2 * tagBytes w)
    (step : lag.next w = some lag') (rc : Bytes) :
    Common.hex2bin2 w ++ (lag'.bytes ++ rc) = lag.bytes ++ (writeCompactInt (intValue w) ++ rc) := by
  have shape := intShape whole
  cases lag with
  | level =>
      rw [Lag.next] at step
      split_ifs at step with canonical upper <;> cases step
      · rw [(canonicalInt_iff whole).mp canonical]
        rfl
      · rw [shape.value_eq, upper]
        rfl
  | fa00 =>
      rw [Lag.next] at step
      split_ifs at step with zero high <;> cases step
      · rw [shape.value_eq, zero]
        rfl
      · rw [shape.value_eq, high]
        rfl
  | zeroFa =>
      rw [Lag.next] at step
      split_ifs at step with zero
      cases step
      rw [shape.value_eq, zero]
      rfl

theorem writeCompactInt_ne_zeros {n : Nat} (bound : n < 2 ^ 64) (x : UInt8) : writeCompactInt n ≠ [x, 0, 0] := by
  intro same
  have length := congrArg List.length same
  rcases writeCompactInt_cases n bound with ⟨small, eq⟩ | ⟨low, high, eq⟩ | ⟨low, high, eq⟩ | ⟨low, high, eq⟩ <;>
    rw [eq] at same length <;> simp at length
  have value := congrArg valueLE (List.cons.inj same).2
  rw [valueLE_littleEndian high] at value
  simp [valueLE] at value
  omega

theorem IntShape.value_of_layout {k v n : Nat} (bound : n < 2 ^ 64) (shape : IntShape k (writeCompactInt n) v) :
    v = n := by
  rw [shape.value_eq]
  rcases writeCompactInt_cases n bound with ⟨small, eq⟩ | ⟨low, high, eq⟩ | ⟨low, high, eq⟩ | ⟨low, high, eq⟩ <;>
    rw [eq]
  · have digit : n % 256 = n := by omega
    simp [valueLE, digit]
  all_goals rw [if_neg (by simp), List.tail_cons, valueLE_littleEndian high]

theorem IntShape.length_odd {k v : Nat} {b : Bytes} (shape : IntShape k b v) : b.length % 2 = 1 := by
  cases shape with
  | byte x => rfl
  | tagged tag body width =>
      replace width := tagged_width width
      rw [List.length_cons]
      omega

theorem writeCompactInt_length_odd {n : Nat} (bound : n < 2 ^ 64) : (writeCompactInt n).length % 2 = 1 := by
  rcases writeCompactInt_cases n bound with ⟨-, eq⟩ | ⟨-, -, eq⟩ | ⟨-, -, eq⟩ | ⟨-, -, eq⟩ <;> simp [eq]

theorem IntShape.no_padding {k v n : Nat} {b : Bytes} {lag : Lag} (shape : IntShape k b v) (bound : n < 2 ^ 64)
    (positive : 0 < n) : b ++ [0, 0] ≠ lag.bytes ++ writeCompactInt n := by
  intro same
  cases lag with
  | level =>
      cases shape with
      | byte x => exact writeCompactInt_ne_zeros bound x same.symm
      | tagged tag body width =>
          have length := congrArg List.length same
          replace width := tagged_width width
          simp only [Lag.bytes, List.nil_append] at same length
          rcases writeCompactInt_cases n bound with ⟨-, eq⟩ | ⟨-, -, eq⟩ | ⟨-, -, eq⟩ | ⟨-, -, eq⟩ <;>
            rw [eq] at same length <;>
            simp only [List.length_append, List.length_cons, List.length_nil, littleEndian_length] at length
          case inr.inr.inl =>
            obtain rfl := (List.cons.inj same).1
            simp at width
            omega
          all_goals omega
  | fa00 =>
      cases shape with
      | byte x =>
          have zero : writeCompactInt n = writeCompactInt 0 := (List.cons.inj (List.cons.inj same).2).2.symm
          have := writeCompactInt_delimited n 0 bound (by norm_num) [] [] (by rw [zero])
          omega
      | tagged tag body width =>
          obtain ⟨rfl, rest⟩ := List.cons.inj same
          obtain ⟨y, z, rfl⟩ : ∃ y z, body = [y, z] := List.length_eq_two.mp (by simpa using width)
          exact writeCompactInt_ne_zeros bound z (List.cons.inj rest).2.symm
  | zeroFa =>
      obtain ⟨-, -, rest⟩ := shape.zero same
      cases rest

theorem Lag.closes_of_eq {lag : Lag} {w padding : Bytes} {n : Nat} (small : n < 2 ^ 32)
    (whole : w.length = 2 + 2 * tagBytes w) (padded : padding = [] ∨ padding = [0] ∨ padding = [0, 0] ∧ 0 < n)
    (same : Common.hex2bin2 w ++ padding = lag.bytes ++ writeCompactInt n) :
    padding = [] ∧ lag.Closes w n := by
  have shape := intShape whole
  have bound : n < 2 ^ 64 := by omega
  rcases padded with rfl | rfl | ⟨rfl, positive⟩
  · refine ⟨rfl, ?_⟩
    rw [List.append_nil] at same
    cases lag with
    | level =>
        have layout : Common.hex2bin2 w = writeCompactInt n := same
        have value : intValue w = n := (layout ▸ shape).value_of_layout bound
        exact ⟨(canonicalInt_iff whole).mpr (by rw [value, layout]), value⟩
    | fa00 =>
        rw [same] at shape
        generalize tagBytes w = k, intValue w = v at shape
        cases shape with
        | tagged tag body width =>
            rcases writeCompactInt_cases n bound with ⟨small, eq⟩ | ⟨-, -, eq⟩ | ⟨-, -, eq⟩ | ⟨-, -, eq⟩
            · exact ⟨small, by rw [same, eq]; rfl⟩
            all_goals
              rw [eq] at width
              simp at width
    | zeroFa =>
        obtain ⟨-, -, rest⟩ := shape.zero ((List.append_nil _).trans same)
        cases rest
  · -- every integer takes an odd number of bytes
    have length := congrArg List.length same
    have textOdd := shape.length_odd
    have layoutOdd := writeCompactInt_length_odd bound
    cases lag <;> simp only [Lag.bytes, List.length_append, List.length_cons, List.length_nil] at length <;> omega
  · exact absurd same (shape.no_padding bound positive)

theorem Lag.eq_of_closes {lag : Lag} {w : Bytes} {n : Nat} (whole : w.length = 2 + 2 * tagBytes w)
    (closes : lag.Closes w n) : Common.hex2bin2 w = lag.bytes ++ writeCompactInt n := by
  have shape := intShape whole
  cases lag with
  | level =>
      obtain ⟨canonical, rfl⟩ := closes
      exact (canonicalInt_iff whole).mp canonical
  | fa00 =>
      obtain ⟨small, bytes⟩ := closes
      rw [bytes, writeCompactInt_small small]
      rfl
  | zeroFa => exact closes.elim

theorem IntShape.overrun {k v n : Nat} {b padding : Bytes} (shape : IntShape k b v) (bound : n < 2 ^ 64)
    (padded : padding = [] ∨ padding = [0] ∨ padding = [0, 0] ∧ 0 < n) :
    b ++ padding ≠ 0 :: 250 :: 250 :: 0 :: writeCompactInt n ∧
    b ++ padding ≠ 250 :: 250 :: 0 :: 0 :: writeCompactInt n := by
  constructor <;> intro same
  · obtain ⟨-, -, rest⟩ := shape.zero same
    rcases padded with rfl | rfl | ⟨rfl, -⟩ <;> simp at rest
  · cases shape with
    | byte x =>
        have rest := (List.cons.inj same).2
        rcases padded with rfl | rfl | ⟨rfl, -⟩ <;> simp at rest
    | tagged tag body width =>
        obtain ⟨rfl, rest⟩ := List.cons.inj same
        obtain ⟨y, z, rfl⟩ : ∃ y z, body = [y, z] := List.length_eq_two.mp (by simpa using width)
        have rest : padding = 0 :: writeCompactInt n := (List.cons.inj (List.cons.inj rest).2).2
        have odd := writeCompactInt_length_odd bound
        rcases padded with rfl | rfl | ⟨rfl, positive⟩
        · cases rest
        · rw [← (List.cons.inj rest).2] at odd
          cases odd
        · have := writeCompactInt_delimited n 0 bound (by norm_num) [] [] (by rw [← (List.cons.inj rest).2]; rfl)
          omega

/-- No zero byte hides characters from `c_str()` that `hex2bin` would decode to another byte. -/
def Terminated (s : Bytes) : Prop := 0 ∉ s.dropLast ∧ (0 ∉ s ∨ s.length % 2 = 0)

instance (s : Bytes) : Decidable (Terminated s) := by unfold Terminated; infer_instance

theorem cStr_append_zero {s : Bytes} (terminated : 0 ∉ s) (rest : Bytes) : cStr (s ++ 0 :: rest) = s := by
  induction s with
  | nil => rfl
  | cons c s ih =>
      simp only [List.mem_cons, not_or] at terminated
      rw [cStr, List.cons_append, List.takeWhile_cons, if_pos (by simpa using Ne.symm terminated.1)]
      exact congrArg _ (ih terminated.2)

theorem cStr_cases (s : Bytes) : (0 ∉ s ∧ cStr s = s) ∨ ∃ rest, 0 ∉ cStr s ∧ s = cStr s ++ 0 :: rest := by
  by_cases terminated : 0 ∉ s
  · exact .inl ⟨terminated, cStr_eq_self terminated⟩
  · obtain ⟨front, rest, rfl, first⟩ : ∃ front rest, s = front ++ 0 :: rest ∧ 0 ∉ front :=
      List.eq_append_cons_of_mem (not_not.mp terminated)
    rw [cStr_append_zero first]
    exact .inr ⟨rest, first, rfl⟩

theorem hex2bin2_snoc_zero {s : Bytes} (odd : s.length % 2 = 1) :
    Common.hex2bin2 (s ++ [0]) = Common.hex2bin2 s := by
  induction s using Common.hex2bin2.induct with
  | case1 => simp at odd
  | case2 c => rw [List.singleton_append, Common.hex2bin2, Common.hex2bin2, Common.hex2bin2]
  | case3 c d rest ih =>
      have odd' : rest.length % 2 = 1 := by simp only [List.length_cons] at odd; omega
      simp [Common.hex2bin2, ih odd']

theorem Terminated.cases {s : Bytes} (terminated : Terminated s) :
    cStr s = s ∨ (s = cStr s ++ [0] ∧ (cStr s).length % 2 = 1) := by
  rcases cStr_cases s with ⟨-, same⟩ | ⟨rest, -, split⟩
  · exact .inl same
  · obtain ⟨before, even⟩ := terminated
    generalize cStr s = front at split ⊢
    subst split
    have even := even.resolve_left (by simp)
    obtain rfl : rest = [] := by
      by_contra more
      rw [List.dropLast_append_of_ne_nil (by simp)] at before
      simp [List.dropLast_cons_of_ne_nil more] at before
    simp only [List.length_append, List.length_cons, List.length_nil] at even
    exact .inr ⟨rfl, by omega⟩

theorem hex2bin2_cStr_iff (s : Bytes) : Common.hex2bin2 (cStr s) = Common.hex2bin2 s ↔ Terminated s := by
  constructor
  · intro bytes
    rcases cStr_cases s with ⟨free, -⟩ | ⟨rest, first, split⟩
    · exact ⟨fun member => free (List.mem_of_mem_dropLast member), .inl free⟩
    · generalize cStr s = front at *
      subst split
      have length := congrArg List.length bytes
      simp only [hex2bin2_length, List.length_append, List.length_cons] at length
      obtain rfl : rest = [] := List.length_eq_zero_iff.mp (by omega)
      simp only [List.length_nil] at length
      exact ⟨by simpa using first, .inr (by simp; omega)⟩
  · intro terminated
    rcases terminated.cases with same | ⟨split, odd⟩
    · rw [same]
    · rw [← hex2bin2_snoc_zero odd, ← split]

theorem Terminated.of_append {front s : Bytes} (even : front.length % 2 = 0)
    (terminated : Terminated (front ++ s)) : Terminated s := by
  by_cases empty : s = []
  · subst empty
    exact ⟨by simp, .inl (by simp)⟩
  · obtain ⟨before, last⟩ := terminated
    rw [List.dropLast_append_of_ne_nil empty] at before
    simp only [List.mem_append, not_or, List.length_append] at before last
    exact ⟨before.2, last.imp And.right (by omega)⟩

theorem hasPrefix0x_append {s : Bytes} (long : 2 < s.length) (rest : Bytes) :
    Crypto.hasPrefix0x (s ++ rest) = Crypto.hasPrefix0x s := by
  have longer : 2 < (s ++ rest).length := by simp; omega
  simp only [Crypto.hasPrefix0x, long, longer, charAt, List.getD_append _ _ _ _ (by omega : 0 < s.length),
    List.getD_append _ _ _ _ (by omega : 1 < s.length)]

theorem hasPrefix0x_short {s : Bytes} (short : s.length ≤ 2) : Crypto.hasPrefix0x s = false := by
  simp [Crypto.hasPrefix0x, Nat.not_lt.mpr short]

theorem hasPrefix0x_cStr {s : Bytes} (plain : Crypto.hasPrefix0x s = false) :
    Crypto.hasPrefix0x (cStr s) = false := by
  rcases cStr_cases s with ⟨-, same⟩ | ⟨rest, -, split⟩
  · rwa [same]
  · by_cases long : 2 < (cStr s).length
    · rwa [← hasPrefix0x_append long (0 :: rest), ← split]
    · exact hasPrefix0x_short (by omega)

theorem Terminated.hasPrefix0x_eq {s : Bytes} (terminated : Terminated s) :
    Crypto.hasPrefix0x (cStr s) = Crypto.hasPrefix0x s := by
  rcases terminated.cases with same | ⟨split, odd⟩
  · rw [same]
  · by_cases long : 2 < (cStr s).length
    · conv_rhs => rw [split, hasPrefix0x_append long]
    · have length := congrArg List.length split
      simp only [List.length_append, List.length_cons, List.length_nil] at length
      rw [hasPrefix0x_short (by omega), hasPrefix0x_short (by omega)]

theorem exists_of_hasPrefix0x {s : Bytes} (stripped : Crypto.hasPrefix0x s = true) :
    ∃ rest, rest ≠ [] ∧ s = 48 :: 120 :: rest := by
  match s with
  | [] => cases stripped
  | [a] => cases stripped
  | a :: b :: rest =>
      simp only [hasPrefix0x_cons, Bool.and_eq_true, decide_eq_true_eq, beq_iff_eq] at stripped
      obtain ⟨⟨nonempty, rfl⟩, rfl⟩ := stripped
      exact ⟨rest, nonempty, rfl⟩

theorem hex2bin_some {s bin : Bytes} (returns : Crypto.hex2bin s = some bin) :
    s.length + 1 < 2 ^ 32 ∧ bin = Common.hex2bin2 (s.drop (if Crypto.hasPrefix0x s then 2 else 0)) := by
  have small : s.length + 1 < 2 ^ 32 := hex2bin_isSome_iff.mp (by rw [returns]; rfl)
  rw [hex2bin_eq small] at returns
  exact ⟨small, (Option.some.inj returns).symm⟩

theorem formatHex_split {s bin : Bytes} (terminated : Terminated s) (formatted : formatHex s = some bin) :
    ∃ padding, Common.hex2bin2 s = padding ++ bin ∧
      ((padding = [] ∧ Crypto.hasPrefix0x s = false) ∨
        (Crypto.hasPrefix0x s = true ∧ (padding = [0] ∨ padding = [0, 0] ∧ 0 < bin.length))) := by
  rw [← (hex2bin2_cStr_iff s).mpr terminated, ← terminated.hasPrefix0x_eq]
  simp only [formatHex] at formatted
  generalize cStr s = u at formatted ⊢
  have zero : hexByte 48 120 = 0 := by decide
  cases plain : Crypto.hasPrefix0x u with
  | false =>
      simp only [plain, Bool.false_eq_true, if_false] at formatted
      obtain ⟨-, rfl⟩ := hex2bin_some formatted
      exact ⟨[], by simp [plain], .inl ⟨rfl, rfl⟩⟩
  | true =>
      simp only [plain, if_true] at formatted
      obtain ⟨rest, -, rfl⟩ := exists_of_hasPrefix0x plain
      obtain ⟨-, rfl⟩ := hex2bin_some formatted
      cases again : Crypto.hasPrefix0x rest with
      | false => exact ⟨[0], by simp [again, Common.hex2bin2, zero], .inr ⟨rfl, .inl rfl⟩⟩
      | true =>
          obtain ⟨last, nonempty, rfl⟩ := exists_of_hasPrefix0x again
          refine ⟨[0, 0], by simp [again, Common.hex2bin2, zero], .inr ⟨rfl, .inr ⟨rfl, ?_⟩⟩⟩
          have := List.length_pos_iff.mpr nonempty
          simp [again, hex2bin2_length]
          omega

theorem formatHex_receiver {digits receiver : Bytes} (length : digits.length = 50)
    (formatted : formatHex (text "0x" ++ digits) = some receiver) (whole : receiver.length = 25) :
    Crypto.hasPrefix0x digits = false ∧ receiver = Common.hex2bin2 digits := by
  have front : cStr (text "0x" ++ digits) = 48 :: 120 :: cStr digits := rfl
  have stripped : formatHex (text "0x" ++ digits) = Crypto.hex2bin (cStr digits) := by
    have nonempty : cStr digits ≠ [] := by
      intro empty
      rw [formatHex, front, empty] at formatted
      obtain rfl := Option.some.inj formatted
      simp at whole
    simp only [formatHex, front, hasPrefix0x_cons]
    simp [nonempty]
  rw [stripped] at formatted
  obtain ⟨-, rfl⟩ := hex2bin_some formatted
  have short : (cStr digits).length ≤ digits.length := (List.takeWhile_sublist _).length_le
  cases plain : Crypto.hasPrefix0x (cStr digits) with
  | true =>
      simp only [plain, if_true, hex2bin2_length, List.length_drop] at whole
      omega
  | false =>
      simp only [plain, Bool.false_eq_true, if_false, List.drop_zero, hex2bin2_length] at whole ⊢
      have terminated : Terminated digits := by
        rcases cStr_cases digits with ⟨free, -⟩ | ⟨rest, first, split⟩
        · exact ⟨fun member => free (List.mem_of_mem_dropLast member), .inl free⟩
        · have total := congrArg List.length split
          simp only [List.length_append, List.length_cons] at total
          obtain rfl : rest = [] := List.length_eq_zero_iff.mp (by omega)
          refine ⟨?_, .inr (by omega)⟩
          rw [split]
          simpa using first
      exact ⟨terminated.hasPrefix0x_eq.symm.trans plain, (hex2bin2_cStr_iff digits).mpr terminated⟩

/-! ## The texts that are signed as reported -/

def lagAfter (t : Bytes) : Option Lag := do
  let lag ← Lag.level.next (intWord t 0)
  let lag ← lag.next (intWord t 1)
  lag.next (intWord t 2)

structure FaithfulText (t : Bytes) : Prop where
  plain : Crypto.hasPrefix0x t = false
  terminated : Terminated t
  plainData : Crypto.hasPrefix0x (dataText t) = false
  aligned : ∃ lag, lagAfter t = some lag ∧ lag.Closes (intWord t 3) (((dataText t).length + 1) / 2)

theorem WholeInt.length {t : Bytes} (whole : WholeInt t) (two : 2 ≤ t.length) :
    (intText t).length = 2 + 2 * tagBytes (intText t) := by
  have enough := whole.resolve_left (by omega)
  have tag : tagBytes (intText t) = tagBytes t := by
    conv_rhs => rw [← intText_append_intRest t]
    rw [tagBytes_append]
    rw [intText_eq two, List.length_take]
    omega
  rw [tag, intText_eq two, List.length_take]
  omega

theorem WholeInt.bytes {t : Bytes} (whole : WholeInt t) :
    Common.hex2bin2 t = Common.hex2bin2 (intText t) ++ Common.hex2bin2 (intRest t) := by
  conv_lhs => rw [← intText_append_intRest t]
  apply hex2bin2_append
  by_cases two : 2 ≤ t.length
  · rw [whole.length two]
    omega
  · rw [intText, if_pos (by omega)]
    rfl

theorem dataText_of_short {t : Bytes} {k : Nat} (bound : k ≤ 4) (short : (intRest^[k] (t.drop 50)).length < 2) :
    dataText t = intRest^[k] (t.drop 50) := by
  have fixed : Function.IsFixedPt intRest (intRest^[k] (t.drop 50)) := if_pos short
  have split : intRest^[4] (t.drop 50) = intRest^[4 - k] (intRest^[k] (t.drop 50)) := by
    rw [← Function.iterate_add_apply]
    congr 1
    omega
  rw [dataText, split, fixed.iterate]

section Alignment

variable {t : Bytes} (whole : ∀ k < 4, WholeInt (intRest^[k] (t.drop 50)))
include whole

theorem intWord_bytes {k : Nat} (bound : k < 4) :
    Common.hex2bin2 (intRest^[k] (t.drop 50)) =
      Common.hex2bin2 (intWord t k) ++ Common.hex2bin2 (intRest^[k + 1] (t.drop 50)) := by
  rw [Function.iterate_succ_apply', intWord]
  exact (whole k bound).bytes

section Padding

variable {padding data : Bytes} (split : Common.hex2bin2 (dataText t) = padding ++ data)
  (padded : (padding = [] ∧ Crypto.hasPrefix0x (dataText t) = false) ∨
    (Crypto.hasPrefix0x (dataText t) = true ∧ (padding = [0] ∨ padding = [0, 0] ∧ 0 < data.length)))
include split padded

-- if the text ended before this integer, the rest of the layout would have to be empty
theorem intWord_length_of_ahead {k : Nat} (bound : k < 4) {ahead : Bytes} (nonempty : ahead ≠ [])
    (eq : Common.hex2bin2 (intRest^[k] (t.drop 50)) = ahead ++ data) :
    (intWord t k).length = 2 + 2 * tagBytes (intWord t k) := by
  refine (whole k bound).length ?_
  by_contra short
  have last := dataText_of_short (t := t) (Nat.le_of_lt bound) (by omega)
  have plain : Crypto.hasPrefix0x (dataText t) = false := hasPrefix0x_short (by rw [last]; omega)
  rcases padded with ⟨rfl, -⟩ | ⟨stripped, -⟩
  · rw [← last, split, List.nil_append] at eq
    exact nonempty (List.append_left_eq_self.mp eq.symm)
  · rw [plain] at stripped
    cases stripped

theorem intWord_next {k : Nat} {lag : Lag} {rest : Bytes} (inside : k < 3)
    (eq : Common.hex2bin2 (intRest^[k] (t.drop 50)) =
      lag.bytes ++ (writeCompactInt (intValue (intWord t k)) ++ (rest ++ data))) :
    (∃ lag', lag.next (intWord t k) = some lag' ∧
      Common.hex2bin2 (intRest^[k + 1] (t.drop 50)) = lag'.bytes ++ (rest ++ data)) ∨
    (lag = .fa00 ∧ Common.hex2bin2 (intRest^[k + 1] (t.drop 50)) = ([0, 250, 250, 0] ++ rest) ++ data) := by
  have nonempty : lag.bytes ++ (writeCompactInt (intValue (intWord t k)) ++ rest) ≠ [] := by
    simp [writeCompactInt_ne_nil]
  have word := intWord_length_of_ahead whole split padded (k := k) (by omega) nonempty (by rw [eq]; simp)
  rw [intWord_bytes whole (by omega)] at eq
  exact Lag.next_of_eq word eq

theorem intWord_last {ahead : Bytes} (nonempty : ahead ≠ [])
    (eq : Common.hex2bin2 (intRest^[3] (t.drop 50)) = ahead ++ data) :
    (intWord t 3).length = 2 + 2 * tagBytes (intWord t 3) ∧ Common.hex2bin2 (intWord t 3) ++ padding = ahead := by
  refine ⟨intWord_length_of_ahead whole split padded (by norm_num) nonempty eq, ?_⟩
  have bytes := intWord_bytes whole (k := 3) (by norm_num)
  have tail : Common.hex2bin2 (intRest^[3 + 1] (t.drop 50)) = padding ++ data := split
  rw [eq, tail, ← List.append_assoc] at bytes
  exact (List.append_cancel_right bytes).symm

theorem aligned_of_bytes (small : data.length < 2 ^ 32)
    (same : Common.hex2bin2 (t.drop 50) =
      writeCompactInt (intValue (intWord t 0)) ++ (writeCompactInt (intValue (intWord t 1)) ++
        (writeCompactInt (intValue (intWord t 2)) ++ (writeCompactInt data.length ++ data)))) :
    padding = [] ∧ ∃ lag, lagAfter t = some lag ∧ lag.Closes (intWord t 3) data.length := by
  have zeros : padding = [] ∨ padding = [0] ∨ padding = [0, 0] ∧ 0 < data.length := by
    rcases padded with ⟨rfl, -⟩ | ⟨-, one⟩
    · exact .inl rfl
    · exact .inr one
  have bound : data.length < 2 ^ 64 := by omega
  have eq0 : Common.hex2bin2 (intRest^[0] (t.drop 50)) =
      Lag.level.bytes ++ (writeCompactInt (intValue (intWord t 0)) ++ ((writeCompactInt (intValue (intWord t 1)) ++
        (writeCompactInt (intValue (intWord t 2)) ++ writeCompactInt data.length)) ++ data)) := by
    simpa [Lag.bytes] using same
  rcases intWord_next whole split padded (by norm_num) eq0 with ⟨lag1, next1, eq1⟩ | ⟨impossible, -⟩
  case inr => cases impossible
  rw [List.append_assoc] at eq1
  rcases intWord_next whole split padded (by norm_num) eq1 with ⟨lag2, next2, eq2⟩ | ⟨-, ahead⟩
  · rw [List.append_assoc] at eq2
    rcases intWord_next whole split padded (by norm_num) eq2 with ⟨lag3, next3, eq3⟩ | ⟨-, ahead⟩
    · rw [← List.append_assoc] at eq3
      obtain ⟨word, closing⟩ := intWord_last whole split padded (by simp [writeCompactInt_ne_nil]) eq3
      obtain ⟨none, closes⟩ := Lag.closes_of_eq small word zeros closing
      exact ⟨none, lag3, by simp [lagAfter, next1, next2, next3], closes⟩
    · obtain ⟨word, closing⟩ := intWord_last whole split padded (by simp) ahead
      exact absurd closing ((intShape word).overrun bound zeros).1
  · -- the third integer can only be a zero byte, which leaves the layout as far ahead
    have word := intWord_length_of_ahead whole split padded (k := 2) (by norm_num) (by simp) ahead
    rw [intWord_bytes whole (by norm_num)] at ahead
    obtain ⟨-, value, rest⟩ := (intShape word).zero ahead
    rw [value] at rest
    have ahead : Common.hex2bin2 (intRest^[3] (t.drop 50)) =
        ([250, 250, 0, 0] ++ writeCompactInt data.length) ++ data := rest
    obtain ⟨word3, closing⟩ := intWord_last whole split padded (by simp) ahead
    exact absurd closing ((intShape word3).overrun bound zeros).2

end Padding

theorem even_before_rest {k : Nat} (bound : k ≤ 4) (long : 50 ≤ t.length) :
    ∃ front, front.length % 2 = 0 ∧ t = front ++ intRest^[k] (t.drop 50) := by
  induction k with
  | zero => exact ⟨t.take 50, by simp; omega, (List.take_append_drop 50 t).symm⟩
  | succ k ih =>
      obtain ⟨front, even, split⟩ := ih (by omega)
      refine ⟨front ++ intWord t k, ?_, ?_⟩
      · have word : (intWord t k).length % 2 = 0 := by
          by_cases two : 2 ≤ (intRest^[k] (t.drop 50)).length
          · rw [intWord, (whole k (by omega)).length two]
            omega
          · rw [intWord, intText, if_pos (by omega)]
            rfl
        rw [List.length_append]
        omega
      · rw [Function.iterate_succ_apply', intWord, List.append_assoc, intText_append_intRest, ← split]

theorem intWord_whole {k : Nat} (bound : k < 4) (nonempty : intWord t k ≠ []) :
    (intWord t k).length = 2 + 2 * tagBytes (intWord t k) := by
  refine (whole k bound).length ?_
  by_contra short
  exact nonempty (if_pos (by omega))

theorem intWord_value_lt {k : Nat} (bound : k < 4) : intValue (intWord t k) < 2 ^ 64 := by
  by_cases empty : intWord t k = []
  · rw [empty]
    decide
  · exact (intShape (intWord_whole whole bound empty)).value_lt

theorem bytes_of_aligned {lag : Lag} {n : Nat} (after : lagAfter t = some lag)
    (closes : lag.Closes (intWord t 3) n) :
    Common.hex2bin2 (t.drop 50) =
      writeCompactInt (intValue (intWord t 0)) ++ (writeCompactInt (intValue (intWord t 1)) ++
        (writeCompactInt (intValue (intWord t 2)) ++ (writeCompactInt n ++ Common.hex2bin2 (dataText t)))) := by
  have nonempty {lag lag' : Lag} {w : Bytes} (next : lag.next w = some lag') : w ≠ [] := by
    rintro rfl
    cases lag <;> cases next
  have step {k : Nat} {lag lag' : Lag} (bound : k < 4) (next : lag.next (intWord t k) = some lag') {rest : Bytes}
      (eq : Common.hex2bin2 (intRest^[k + 1] (t.drop 50)) = lag'.bytes ++ rest) :
      Common.hex2bin2 (intRest^[k] (t.drop 50)) =
        lag.bytes ++ (writeCompactInt (intValue (intWord t k)) ++ rest) := by
    rw [intWord_bytes whole bound, eq, Lag.eq_of_next (intWord_whole whole bound (nonempty next)) next]
  simp only [lagAfter, Option.bind_eq_bind, Option.bind_eq_some_iff] at after
  obtain ⟨lag1, next1, lag2, next2, next3⟩ := after
  have closing : intWord t 3 ≠ [] := by
    intro empty
    rw [empty] at closes
    cases lag with
    | level => exact absurd closes.1 (by decide)
    | fa00 => cases closes.2
    | zeroFa => exact closes
  have eq3 : Common.hex2bin2 (intRest^[3] (t.drop 50)) =
      lag.bytes ++ (writeCompactInt n ++ Common.hex2bin2 (dataText t)) := by
    rw [intWord_bytes whole (by norm_num), Lag.eq_of_closes (intWord_whole whole (by norm_num) closing) closes,
      List.append_assoc]
    rfl
  have eq2 := step (k := 2) (by norm_num) next3 eq3
  have eq1 := step (k := 1) (by norm_num) next2 eq2
  have eq0 := step (k := 0) (by norm_num) next1 eq1
  rwa [Function.iterate_zero, id, Lag.bytes, List.nil_append] at eq0

end Alignment

structure RawSend.Reads (t : Bytes) (r : RawSend) : Prop where
  small : t.length + 1 < 2 ^ 32
  long : 50 ≤ t.length
  whole : ∀ k < 4, WholeInt (intRest^[k] (t.drop 50))
  toAddr : r.toAddr = text "0x" ++ t.take 50
  value : r.value = intValue (intWord t 0)
  fee : r.fee = intValue (intWord t 1)
  nonce : r.nonce = intValue (intWord t 2)
  data : r.data = dataText t
  signed : Crypto.hex2bin t = some r.signed
  hashed : formatHex t = some r.hashed

section
variable {crypto : CryptoLib} {keys : Keys} {t beyond : Bytes} {r : RawSend}

theorem prepareRaw_eq_some :
    prepareRaw crypto keys t beyond = some r ↔ prepareTransaction crypto keys t beyond = .made r := by
  unfold prepareRaw
  cases prepareTransaction crypto keys t beyond <;> simp

theorem signRaw_made {parsed : ParsedTx} {dataBin : Bytes} (made : signRaw crypto keys t parsed dataBin = .made r) :
    ∃ sign hash hashed, formatHex t = some hashed ∧
      r = ⟨parsed.toAddr, parsed.value, parsed.fee, parsed.nonce, parsed.data, sign, hash, dataBin, hashed⟩ := by
  unfold signRaw at made
  split at made
  case h_1 => cases made
  case h_2 => cases made
  case h_3 signBin =>
    split at made
    case h_2 => cases made
    case h_1 sign hashed _ formatted =>
      split at made <;> cases made
      exact ⟨sign, _, hashed, formatted, rfl⟩

theorem prepareRaw_reads (reached : prepareRaw crypto keys t beyond = some r) : r.Reads t := by
  rw [prepareRaw_eq_some, prepareTransaction] at reached
  split at reached
  case h_1 => cases reached
  case h_2 => cases reached
  case h_3 parsed ok =>
    cases returns : Crypto.hex2bin t with
    | none =>
        rw [returns] at reached
        cases reached
    | some dataBin =>
        rw [returns, Option.elim_some] at reached
        obtain ⟨sign, hash, hashed, formatted, rfl⟩ := signRaw_made reached
        obtain ⟨small, -⟩ := hex2bin_some returns
        obtain ⟨long, whole, parts⟩ := parseTansaction_ok (by omega) ok
        simp only [ParsedTx.ext_iff] at parts
        exact ⟨small, long, whole, parts.1, parts.2.1, parts.2.2.1, parts.2.2.2.1, parts.2.2.2.2.2, returns, formatted⟩

end

namespace RawSend.Reads

variable {t : Bytes} {r : RawSend}

theorem digits (reads : r.Reads t) : (t.take 50).length = 50 := by
  have := reads.long
  rw [List.length_take]
  omega

theorem front (reads : r.Reads t) : Crypto.hasPrefix0x t = Crypto.hasPrefix0x (t.take 50) := by
  have digits := reads.digits
  conv_lhs => rw [← List.take_append_drop 50 t]
  exact hasPrefix0x_append (by omega) _

theorem pieces (reads : r.Reads t) :
    Common.hex2bin2 t = Common.hex2bin2 (t.take 50) ++ Common.hex2bin2 (t.drop 50) := by
  have digits := reads.digits
  conv_lhs => rw [← List.take_append_drop 50 t]
  exact hex2bin2_append (by omega) _

theorem decoded (reads : r.Reads t) (plain : Crypto.hasPrefix0x t = false) :
    r.signed = Common.hex2bin2 t ∧ r.hashed = Common.hex2bin2 (cStr t) := by
  have small := reads.small
  have signed := reads.signed
  have hashed := reads.hashed
  have shorter : (cStr t).length ≤ t.length := (List.takeWhile_sublist _).length_le
  rw [hex2bin_plain plain, if_pos small] at signed
  rw [formatHex_plain (hasPrefix0x_cStr plain), if_pos (by omega)] at hashed
  exact ⟨(Option.some.inj signed).symm, (Option.some.inj hashed).symm⟩

theorem dataText_length_le (reads : r.Reads t) : (dataText t).length ≤ t.length := by
  obtain ⟨before, -, split⟩ := even_before_rest reads.whole (k := 4) le_rfl reads.long
  have total := congrArg List.length split
  rw [List.length_append] at total
  rw [dataText]
  omega

theorem dataTerminated (reads : r.Reads t) (terminated : Terminated t) : Terminated (dataText t) := by
  obtain ⟨before, even, split⟩ := even_before_rest reads.whole (k := 4) le_rfl reads.long
  rw [split] at terminated
  exact terminated.of_append even

theorem faithful (reads : r.Reads t) (signs : r.SignsWhatItReports) : FaithfulText t := by
  obtain ⟨tx, receiver, txValue, txFee, txNonce, txData, signedLayout, hashedLayout⟩ := signs
  rw [reads.toAddr] at receiver
  obtain ⟨plainDigits, receiver⟩ := formatHex_receiver reads.digits receiver tx.toAddr_length
  have plain := reads.front.trans plainDigits
  obtain ⟨signedBytes, hashedBytes⟩ := reads.decoded plain
  have terminated : Terminated t := (hex2bin2_cStr_iff t).mp
    (hashedBytes.symm.trans (hashedLayout.trans (signedLayout.symm.trans signedBytes)))
  rw [reads.data] at txData
  obtain ⟨padding, dataBytes, padded⟩ := formatHex_split (reads.dataTerminated terminated) txData
  have dataSmall : tx.data.length < 2 ^ 32 := by
    have total := congrArg List.length dataBytes
    have := reads.dataText_length_le
    have := reads.small
    rw [hex2bin2_length, List.length_append] at total
    omega
  have same : Common.hex2bin2 (t.drop 50) = writeCompactInt (intValue (intWord t 0)) ++
      (writeCompactInt (intValue (intWord t 1)) ++ (writeCompactInt (intValue (intWord t 2)) ++
        (writeCompactInt tx.data.length ++ tx.data))) := by
    have layout := signedBytes.symm.trans signedLayout
    rw [reads.pieces, TxFields.encode, ← receiver, Nat.mod_eq_of_lt dataSmall, txValue, txFee, txNonce, reads.value,
      reads.fee, reads.nonce] at layout
    simpa only [List.append_assoc, List.append_cancel_left_eq] using layout
  obtain ⟨rfl, lag, after, closes⟩ := aligned_of_bytes reads.whole dataBytes padded dataSmall same
  refine ⟨plain, terminated, ?_, lag, after, ?_⟩
  · rcases padded with ⟨-, plainData⟩ | ⟨-, impossible | ⟨impossible, -⟩⟩
    · exact plainData
    · cases impossible
    · cases impossible
  · rw [← hex2bin2_length, dataBytes]
    exact closes

theorem ofNat_intWord (reads : r.Reads t) {k : Nat} (bound : k < 4) :
    (UInt64.ofNat (intValue (intWord t k))).toNat = intValue (intWord t k) := by
  rw [UInt64.toNat_ofNat', Nat.mod_eq_of_lt (intWord_value_lt reads.whole bound)]

def fields (reads : r.Reads t) : TxFields :=
  ⟨Common.hex2bin2 (t.take 50), .ofNat r.value, .ofNat r.fee, .ofNat r.nonce, Common.hex2bin2 (dataText t),
    by rw [hex2bin2_length, reads.digits]⟩

theorem layout (reads : r.Reads t) (faithful : FaithfulText t) : Common.hex2bin2 t = reads.fields.encode := by
  obtain ⟨-, -, -, lag, after, closes⟩ := faithful
  have size : (Common.hex2bin2 (dataText t)).length % 2 ^ 32 = ((dataText t).length + 1) / 2 := by
    have := reads.dataText_length_le
    have := reads.small
    rw [hex2bin2_length]
    omega
  rw [reads.pieces, bytes_of_aligned reads.whole after closes, TxFields.encode, fields, size, reads.value, reads.fee,
    reads.nonce]
  simp only [reads.ofNat_intWord (k := 0) (by norm_num), reads.ofNat_intWord (k := 1) (by norm_num),
    reads.ofNat_intWord (k := 2) (by norm_num), List.append_assoc]

theorem receiver (reads : r.Reads t) (faithful : FaithfulText t) :
    formatHex r.toAddr = some (Common.hex2bin2 (t.take 50)) := by
  obtain ⟨plain, terminated, -, lag, after, -⟩ := faithful
  have digits := reads.digits
  -- a zero byte at the end of the text is behind the address, as there is a first integer
  have behind : t.dropLast = t.take 50 ++ (t.drop 50).dropLast := by
    conv_lhs => rw [← List.take_append_drop 50 t]
    apply List.dropLast_append_of_ne_nil
    intro empty
    have none : lagAfter t = none := by simp only [lagAfter, intWord, Function.iterate_zero, id, empty]; rfl
    rw [none] at after
    cases after
  rw [reads.toAddr]
  refine formatHex_address (by rintro empty; simp [empty] at digits) ?_ (reads.front.symm.trans plain) (by omega)
  intro member
  exact terminated.1 (behind ▸ List.mem_append_left _ member)

theorem signsWhatItReports (reads : r.Reads t) (faithful : FaithfulText t) : r.SignsWhatItReports := by
  obtain ⟨signedBytes, hashedBytes⟩ := reads.decoded faithful.plain
  have layout := reads.layout faithful
  refine ⟨reads.fields, reads.receiver faithful, ?_, ?_, ?_, ?_, signedBytes.trans layout,
    hashedBytes.trans (((hex2bin2_cStr_iff t).mpr faithful.terminated).trans layout)⟩
  · rw [fields, reads.value]
    exact reads.ofNat_intWord (by norm_num)
  · rw [fields, reads.fee]
    exact reads.ofNat_intWord (by norm_num)
  · rw [fields, reads.nonce]
    exact reads.ofNat_intWord (by norm_num)
  · have dataTerminated := reads.dataTerminated faithful.terminated
    have seen : (cStr (dataText t)).length ≤ (dataText t).length := (List.takeWhile_sublist _).length_le
    have := reads.dataText_length_le
    have := reads.small
    rw [reads.data, formatHex_plain (dataTerminated.hasPrefix0x_eq.trans faithful.plainData), if_pos (by omega),
      (hex2bin2_cStr_iff _).mpr dataTerminated]
    rfl

end RawSend.Reads

theorem prepareRaw_signs_what_it_reports_iff (crypto : CryptoLib) (keys : Keys) (t beyond : Bytes) (r : RawSend)
    (reached : prepareRaw crypto keys t beyond = some r) : r.SignsWhatItReports ↔ FaithfulText t :=
  ⟨(prepareRaw_reads reached).faithful, (prepareRaw_reads reached).signsWhatItReports⟩

theorem prepareRaw_plain_text :
    ∃ r, prepareRaw ⟨fun _ _ => some [1], id⟩ ⟨[], []⟩ (List.replicate 50 48 ++ text "0500000107") [] = some r ∧
      r.SignsWhatItReports := by
  have faithful : FaithfulText (List.replicate 50 48 ++ text "0500000107") :=
    ⟨by decide, by decide, by decide, .level, by decide, by decide⟩
  obtain ⟨r, reached⟩ : ∃ r, prepareRaw ⟨fun _ _ => some [1], id⟩ ⟨[], []⟩
      (List.replicate 50 48 ++ text "0500000107") [] = some r := ⟨_, rfl⟩
  exact ⟨r, reached, (prepareRaw_signs_what_it_reports_iff _ _ _ _ r reached).mpr faithful⟩

/-- The same transaction with a `0x` in front: the signature is for a value of 5, the report says 0 and a fee of 5. -/
theorem prepareRaw_prefixed_text :
    ∃ r, prepareRaw ⟨fun _ _ => some [1], id⟩ ⟨[], []⟩
        (text "0x" ++ List.replicate 50 48 ++ text "0500000107") [] = some r ∧
      r.signed = List.replicate 25 0 ++ [5, 0, 0, 1, 7] ∧ r.value = 0 ∧ r.fee = 5 ∧
      r.data = text "0107" ∧ ¬ r.SignsWhatItReports := by
  refine ⟨_, rfl, rfl, rfl, rfl, rfl, ?_⟩
  rintro ⟨tx, receiver, -⟩
  have short : formatHex (text "0x0x" ++ List.replicate 48 48) = some (List.replicate 24 0) := rfl
  have length := tx.toAddr_length
  rw [← Option.some.inj (short.symm.trans receiver)] at length
  simp at length

end FullnodeClient.Tx
