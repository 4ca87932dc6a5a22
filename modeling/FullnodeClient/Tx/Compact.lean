import FullnodeClient.Lib.Delimited
import FullnodeClient.Tx.ByteOrder

/-!
# Compact integers

`task_handlers/utils.h` writes an integer as one byte, or as a tag and two, four or eight bytes;
`task_handlers/utils.cpp` reads it back from hex text.
-/

namespace FullnodeClient.Tx
open FullnodeClient.Lib FullnodeClient.Text

abbrev toLittleEndian (size integer : Nat) : Bytes := littleEndian size integer

def writeCompactInt (value : Nat) : Bytes :=
  if value ≤ 249 then toLittleEndian 1 value
  else if value ≤ 2 ^ 16 - 1 then toLittleEndian 1 250 ++ toLittleEndian 2 value
  else if value ≤ 2 ^ 32 - 1 then toLittleEndian 1 251 ++ toLittleEndian 4 value
  else toLittleEndian 1 252 ++ toLittleEndian 8 value

inductive Failure where
  | invalidArgument (what : String)
  | lengthError
  | segmentationFault
deriving DecidableEq, Repr

/-- A `string_view`: the readable memory from `data()` on, and `size()`. -/
structure StringView where
  mem : Bytes
  size : Nat
deriving DecidableEq, Repr

namespace StringView

def read (v : StringView) (n : Nat) : Except Failure Bytes :=
  if v.mem.length < n then .error .segmentationFault else .ok (v.mem.take n)

/-- Nothing checks that `n` is at most `size()`. -/
def removePrefix (v : StringView) (n : Nat) : StringView :=
  ⟨v.mem.drop n, (v.size + 2 ^ 64 - n) % 2 ^ 64⟩

def of (t beyond : Bytes) : StringView := ⟨t ++ beyond, t.length⟩

end StringView

def readTagged (size : Nat) (what : String) (buf : StringView) : Except Failure (Nat × StringView) :=
  if buf.size < size * 2 + 2 then .error (.invalidArgument what)
  else do
    let buf := buf.removePrefix 2
    let tmp ← buf.read (size * 2)
    return (Common.hexStrToInt (reverseByteOrder tmp), buf.removePrefix (size * 2))

def readCompactInt (buf : StringView) : Except Failure (Nat × StringView) :=
  if buf.size < 2 then .ok (0, buf)
  else do
    let tag ← buf.read 2
    if tag = text "fa" then readTagged 2 "Can not read compact uint16" buf
    else if tag = text "fb" then readTagged 4 "Can not read compact uint32" buf
    else if tag = text "fc" then readTagged 8 "Can not read compact uint64" buf
    else if buf.size < 1 * 2 + 2 then .error (.invalidArgument "Can not read compact uint8")
    else
      let tmp ← buf.read (1 * 2)
      return (Common.hexStrToInt (reverseByteOrder tmp), buf.removePrefix (1 * 2))

theorem writeCompactInt_small {value : Nat} (h : value ≤ 249) :
    writeCompactInt value = [UInt8.ofNat value] := by
  have digit : value % 256 = value := by omega
  simp [writeCompactInt, h, littleEndian, digit]

theorem writeCompactInt_u16 {value : Nat} (low : 249 < value) (high : value < 2 ^ 16) :
    writeCompactInt value = 250 :: littleEndian 2 value := by
  rw [writeCompactInt, if_neg (by omega), if_pos (by omega)]
  rfl

theorem writeCompactInt_u32 {value : Nat} (low : 2 ^ 16 ≤ value) (high : value < 2 ^ 32) :
    writeCompactInt value = 251 :: littleEndian 4 value := by
  rw [writeCompactInt, if_neg (by omega), if_neg (by omega), if_pos (by omega)]
  rfl

theorem writeCompactInt_u64 {value : Nat} (low : 2 ^ 32 ≤ value) :
    writeCompactInt value = 252 :: littleEndian 8 value := by
  rw [writeCompactInt, if_neg (by omega), if_neg (by omega), if_neg (by omega)]
  rfl

theorem writeCompactInt_cases (value : Nat) (bound : value < 2 ^ 64) :
    (value ≤ 249 ∧ writeCompactInt value = [UInt8.ofNat value]) ∨
    (249 < value ∧ value < 256 ^ 2 ∧ writeCompactInt value = 250 :: littleEndian 2 value) ∨
    (256 ^ 2 ≤ value ∧ value < 256 ^ 4 ∧ writeCompactInt value = 251 :: littleEndian 4 value) ∨
    (256 ^ 4 ≤ value ∧ value < 256 ^ 8 ∧ writeCompactInt value = 252 :: littleEndian 8 value) := by
  by_cases small : value ≤ 249
  · exact .inl ⟨small, writeCompactInt_small small⟩
  by_cases u16 : value < 2 ^ 16
  · exact .inr (.inl ⟨by omega, by omega, writeCompactInt_u16 (by omega) u16⟩)
  by_cases u32 : value < 2 ^ 32
  · exact .inr (.inr (.inl ⟨by omega, by omega, writeCompactInt_u32 (by omega) u32⟩))
  · exact .inr (.inr (.inr ⟨by omega, by omega, writeCompactInt_u64 (by omega)⟩))

theorem writeCompactInt_length {value : Nat} (bound : value < 2 ^ 64) :
    1 ≤ (writeCompactInt value).length ∧ (writeCompactInt value).length ≤ 9 := by
  rcases writeCompactInt_cases value bound with ⟨-, eq⟩ | ⟨-, -, eq⟩ | ⟨-, -, eq⟩ | ⟨-, -, eq⟩ <;> simp [eq]

theorem writeCompactInt_ne_nil (value : Nat) : writeCompactInt value ≠ [] := by
  unfold writeCompactInt
  split_ifs <;> simp [toLittleEndian, littleEndian]

theorem littleEndian_delimited (width : Nat) :
    SelfDelimiting (littleEndian width) (· < 256 ^ width) :=
  .of_length (fun n _ => littleEndian_length width n) (fun _ _ hn hm => littleEndian_injective hn hm)

theorem writeCompactInt_delimited : SelfDelimiting writeCompactInt (· < 2 ^ 64) := by
  intro a b ha hb r s same
  have tagged {v w : Nat} {t u : UInt8} {width : Nat} (hv : v < 256 ^ width) (hw : w < 256 ^ width)
      (h : (t :: littleEndian width v) ++ r = (u :: littleEndian width w) ++ s) : v = w ∧ r = s :=
    littleEndian_delimited width v w hv hw r s (List.cons.inj h).2
  rcases writeCompactInt_cases a ha with ⟨a1, ea⟩ | ⟨a1, a2, ea⟩ | ⟨a1, a2, ea⟩ | ⟨a1, a2, ea⟩ <;>
    rcases writeCompactInt_cases b hb with ⟨b1, eb⟩ | ⟨b1, b2, eb⟩ | ⟨b1, b2, eb⟩ | ⟨b1, b2, eb⟩ <;>
    rw [ea, eb] at same
  case inl.inl =>
    simp only [List.cons_append, List.nil_append, List.cons.injEq] at same
    have value := congrArg UInt8.toNat same.1
    simp only [UInt8.toNat_ofNat'] at value
    exact ⟨by omega, same.2⟩
  case inr.inl.inr.inl => exact tagged a2 b2 same
  case inr.inr.inl.inr.inr.inl => exact tagged a2 b2 same
  case inr.inr.inr.inr.inr.inr => exact tagged a2 b2 same
  -- different shapes have different first bytes
  all_goals
    have first := congrArg (fun l => (l.headD 0).toNat) same
    simp only [List.cons_append, List.headD_cons, UInt8.toNat_ofNat', UInt8.toNat_ofNat] at first
    omega

/-! ## Reading inside the text -/

def tagBytes (t : Bytes) : Nat :=
  if t.take 2 = text "fa" then 2 else if t.take 2 = text "fb" then 4
  else if t.take 2 = text "fc" then 8 else 0

def intText (t : Bytes) : Bytes := if t.length < 2 then [] else t.take (2 + 2 * tagBytes t)

def intRest (t : Bytes) : Bytes := if t.length < 2 then t else t.drop (2 + 2 * tagBytes t)

def intValue (w : Bytes) : Nat := valueLE (Common.hex2bin2 (if tagBytes w = 0 then w else w.drop 2))

theorem intText_eq {t : Bytes} (two : 2 ≤ t.length) : intText t = t.take (2 + 2 * tagBytes t) :=
  if_neg (by omega)

theorem intRest_eq {t : Bytes} (two : 2 ≤ t.length) : intRest t = t.drop (2 + 2 * tagBytes t) :=
  if_neg (by omega)

theorem intText_append_intRest (t : Bytes) : intText t ++ intRest t = t := by
  unfold intText intRest
  split <;> simp

theorem StringView.size_of (t beyond : Bytes) : (StringView.of t beyond).size = t.length := rfl

theorem StringView.read_of {t beyond : Bytes} {n : Nat} (inside : n ≤ t.length) :
    (StringView.of t beyond).read n = .ok (t.take n) := by
  rw [StringView.read, if_neg (by simp [StringView.of]; omega)]
  simp [StringView.of, List.take_append_of_le_length inside]

theorem StringView.removePrefix_of {t beyond : Bytes} {n : Nat} (inside : n ≤ t.length)
    (fits : t.length < 2 ^ 64) :
    StringView.removePrefix (StringView.of t beyond) n = StringView.of (t.drop n) beyond := by
  have size : (t.length + 2 ^ 64 - n) % 2 ^ 64 = t.length - n := by omega
  simp only [StringView.removePrefix, StringView.of, List.drop_append_of_le_length inside, List.length_drop,
    size]

theorem readTagged_of {t beyond : Bytes} {size : Nat} {what : String} (fits : t.length < 2 ^ 64)
    (tag : tagBytes t = size) (positive : 0 < size) (small : size ≤ 8) :
    readTagged size what (StringView.of t beyond) =
      if t.length < 2 + 2 * size then .error (.invalidArgument what)
      else .ok (intValue (intText t), StringView.of (intRest t) beyond) := by
  have guard : (StringView.of t beyond).size < size * 2 + 2 ↔ t.length < 2 + 2 * size := by
    simp only [StringView.of]; omega
  rw [readTagged]
  split
  case isTrue short => rw [if_pos (guard.mp short)]
  case isFalse long =>
    rw [guard] at long
    have body : (t.take (2 + 2 * size)).drop 2 = (t.drop 2).take (size * 2) := by
      rw [List.drop_take]
      congr 1
      omega
    have length : ((t.drop 2).take (size * 2)).length = size * 2 := by
      simp only [List.length_take, List.length_drop]; omega
    have sameTag : tagBytes (t.take (2 + 2 * size)) ≠ 0 := by
      have front : (t.take (2 + 2 * size)).take 2 = t.take 2 := by simp [List.take_take]
      unfold tagBytes at tag ⊢
      rw [front, tag]
      omega
    rw [if_neg long, StringView.removePrefix_of (by omega) fits]
    simp only [StringView.read_of (t := t.drop 2) (n := size * 2) (by simp; omega), bind, Except.bind, pure,
      Except.pure]
    rw [StringView.removePrefix_of (by simp; omega) (by simp; omega), List.drop_drop,
      hexStrToInt_reverseByteOrder (by omega) (by omega), intValue, intText_eq (by omega),
      intRest_eq (by omega), tag, if_neg sameTag, body, Nat.mul_comm size 2]

def tagMessage (t : Bytes) : String :=
  match tagBytes t with
  | 0 => "Can not read compact uint8"
  | 2 => "Can not read compact uint16"
  | 4 => "Can not read compact uint32"
  | _ => "Can not read compact uint64"

theorem readCompactInt_of {t beyond : Bytes} (two : 2 ≤ t.length) (fits : t.length < 2 ^ 64) :
    readCompactInt (StringView.of t beyond) =
      if t.length < max 4 (2 + 2 * tagBytes t) then .error (.invalidArgument (tagMessage t))
      else .ok (intValue (intText t), StringView.of (intRest t) beyond) := by
  have enough : ¬ (StringView.of t beyond).size < 2 := by simp only [StringView.of]; omega
  have tagged {size : Nat} (tag : tagBytes t = size) (two : 2 ≤ size) (small : size ≤ 8) :
      readTagged size (tagMessage t) (StringView.of t beyond) =
        if t.length < max 4 (2 + 2 * tagBytes t) then .error (.invalidArgument (tagMessage t))
        else .ok (intValue (intText t), StringView.of (intRest t) beyond) := by
    rw [readTagged_of fits tag (by omega) small, tag, max_eq_right (by omega)]
  simp only [readCompactInt, if_neg enough, StringView.read_of two, bind, Except.bind]
  split
  case isTrue fa =>
    have tag : tagBytes t = 2 := if_pos fa
    rw [← tagged tag (by norm_num) (by norm_num), tagMessage, tag]
    rfl
  case isFalse fa =>
    split
    case isTrue fb =>
      have tag : tagBytes t = 4 := (if_neg fa).trans (if_pos fb)
      rw [← tagged tag (by norm_num) (by norm_num), tagMessage, tag]
      rfl
    case isFalse fb =>
      split
      case isTrue fc =>
        have tag : tagBytes t = 8 := (if_neg fa).trans ((if_neg fb).trans (if_pos fc))
        rw [← tagged tag (by norm_num) (by norm_num), tagMessage, tag]
        rfl
      case isFalse fc =>
        have plain : tagBytes t = 0 := by simp [tagBytes, fa, fb, fc]
        have plainText : tagBytes (t.take 2) = 0 := by simp [tagBytes, List.take_take, fa, fb, fc]
        have pair : (t.take 2).length = 2 := by simp; omega
        have size : (StringView.of t beyond).size < 1 * 2 + 2 ↔ t.length < 4 := Iff.rfl
        simp only [size, one_mul, StringView.removePrefix_of two fits, pure, Except.pure,
          hexStrToInt_reverseByteOrder (s := t.take 2) (by omega) (by omega), intText_eq two, intRest_eq two,
          intValue, plain, plainText, tagMessage, if_true, mul_zero, add_zero]
        rfl

theorem tagBytes_append {w : Bytes} (two : 2 ≤ w.length) (rest : Bytes) :
    tagBytes (w ++ rest) = tagBytes w := by
  simp only [tagBytes, List.take_append_of_le_length two]

theorem tagBytes_bin2hex (x : UInt8) (rest : Bytes) :
    tagBytes (StringUtils.bin2hex (x :: rest)) =
      if x = 250 then 2 else if x = 251 then 4 else if x = 252 then 8 else 0 := by
  have front : (StringUtils.bin2hex (x :: rest)).take 2 = StringUtils.bin2hex [x] := by
    rw [bin2hex_cons, bin2hex_cons]
    rfl
  have tag (y : UInt8) : StringUtils.bin2hex [x] = StringUtils.bin2hex [y] ↔ x = y := by
    rw [bin2hex_injective.eq_iff]
    simp
  have fa : text "fa" = StringUtils.bin2hex [250] := by rw [bin2hex_cons]; rfl
  have fb : text "fb" = StringUtils.bin2hex [251] := by rw [bin2hex_cons]; rfl
  have fc : text "fc" = StringUtils.bin2hex [252] := by rw [bin2hex_cons]; rfl
  simp only [tagBytes, front, fa, fb, fc, tag]

theorem writeCompactInt_text {value : Nat} (bound : value < 2 ^ 64) :
    (StringUtils.bin2hex (writeCompactInt value)).length =
      2 + 2 * tagBytes (StringUtils.bin2hex (writeCompactInt value)) ∧
    (tagBytes (StringUtils.bin2hex (writeCompactInt value)) = 0 ↔ value ≤ 249) ∧
    intValue (StringUtils.bin2hex (writeCompactInt value)) = value := by
  have body (x : UInt8) (b : Bytes) : (StringUtils.bin2hex (x :: b)).drop 2 = StringUtils.bin2hex b := by
    simp [bin2hex_cons]
  rcases writeCompactInt_cases value bound with ⟨small, eq⟩ | ⟨low, high, eq⟩ | ⟨low, high, eq⟩ | ⟨low, high, eq⟩ <;>
    rw [eq, intValue, tagBytes_bin2hex, bin2hex_length]
  case inl =>
    have plain (tag : UInt8) (large : 249 < tag.toNat) : UInt8.ofNat value ≠ tag := by
      rintro rfl
      simp only [UInt8.toNat_ofNat'] at large
      omega
    have digit : value % 256 = value := by omega
    rw [if_neg (plain 250 (by decide)), if_neg (plain 251 (by decide)), if_neg (plain 252 (by decide)),
      if_pos rfl, hex2bin2_bin2hex]
    simp [valueLE, digit, small]
  all_goals
    have read := valueLE_littleEndian high
    simp [body, hex2bin2_bin2hex, read]
    omega

theorem readCompactInt_write {value : Nat} (bound : value < 2 ^ 64) {rest beyond : Bytes}
    (fits : rest.length + 18 < 2 ^ 64) :
    readCompactInt (StringView.of (StringUtils.bin2hex (writeCompactInt value) ++ rest) beyond) =
      if value ≤ 249 ∧ rest.length < 2 then .error (.invalidArgument "Can not read compact uint8")
      else .ok (value, StringView.of rest beyond) := by
  obtain ⟨length, plain, read⟩ := writeCompactInt_text bound
  set w := StringUtils.bin2hex (writeCompactInt value)
  have tag : tagBytes (w ++ rest) = tagBytes w := tagBytes_append (by omega) rest
  have small : tagBytes w ≤ 8 := by unfold tagBytes; split_ifs <;> omega
  have guard : (w ++ rest).length < max 4 (2 + 2 * tagBytes w) ↔ value ≤ 249 ∧ rest.length < 2 := by
    rw [List.length_append, ← plain]
    omega
  have two : 2 ≤ (w ++ rest).length := by simp; omega
  rw [readCompactInt_of two (by simp; omega), intText_eq two, intRest_eq two, tag, ← length, List.take_left,
    List.drop_left, read, length]
  by_cases short : value ≤ 249 ∧ rest.length < 2
  · rw [if_pos short, if_pos (guard.mpr short), tagMessage, tag, plain.mpr short.1]
    rfl
  · rw [if_neg short, if_neg (mt guard.mp short)]

theorem hexStrToInt_toLittleEndian {size integer : Nat} (width : size ≤ 8) (fits : integer < 256 ^ size) :
    Common.hexStrToInt (reverseByteOrder (StringUtils.bin2hex (toLittleEndian size integer))) = integer := by
  have length : (StringUtils.bin2hex (toLittleEndian size integer)).length = 2 * size := by
    rw [bin2hex_length, littleEndian_length]
  rw [hexStrToInt_reverseByteOrder (by omega) (by omega), hex2bin2_bin2hex, valueLE_littleEndian fits]

theorem reverse_byte_order_exact (hex : Bytes) (k : Nat) (even : hex.length = 2 * k) :
    reverseByteOrderChecked hex = some (reverseByteOrder hex) ∧
      (reverseByteOrder hex).length = 2 * k ∧
      (∀ i < k, charAt (reverseByteOrder hex) (2 * i) = charAt hex (2 * (k - 1 - i)) ∧
        charAt (reverseByteOrder hex) (2 * i + 1) = charAt hex (2 * (k - 1 - i) + 1)) ∧
      reverseByteOrder (reverseByteOrder hex) = hex ∧
      ∀ size ∈ [1, 2, 4, 8], ∀ integer < 256 ^ size,
        Common.hexStrToInt (reverseByteOrder (StringUtils.bin2hex (toLittleEndian size integer))) = integer := by
  refine ⟨reverseByteOrder_checked hex, ?_, ?_, reverseByteOrder_involutive (by omega), ?_⟩
  · rw [reverseByteOrder_length, even]
  · intro i inside
    constructor
    · rw [charAt_reverseByteOrder even (by omega)]
      congr 1
      omega
    · rw [charAt_reverseByteOrder even (by omega)]
      congr 1
      omega
  · intro size width integer fits
    have narrow : ∀ size ∈ [1, 2, 4, 8], size ≤ 8 := by decide
    exact hexStrToInt_toLittleEndian (narrow size width) fits

theorem reverse_byte_order_three_bytes :
    (text "0a1b2c").length = 2 * 3 ∧ reverseByteOrder (text "0a1b2c") = text "2c1b0a" ∧
      reverseByteOrder (reverseByteOrder (text "0a1b2c")) = text "0a1b2c" :=
  ⟨by decide, by decide, (reverse_byte_order_exact (text "0a1b2c") 3 (by decide)).2.2.2.1⟩

end FullnodeClient.Tx
