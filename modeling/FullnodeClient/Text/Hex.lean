import FullnodeClient.Lib.Positional
import Mathlib.Data.List.GetD

/-!
# Hex text

The encoders and decoders of `cpplib_open_ssl_decor/crypto.cpp`, `common/string_utils.cpp` and
`common/convertStrings.h`. A C++ string is the list of its bytes; the character after the last one
is the terminating zero.
-/

namespace FullnodeClient.Text
open FullnodeClient.Lib

def hexLookup : Bytes :=
  text "000102030405060708090a0b0c0d0e0f" ++
  text "101112131415161718191a1b1c1d1e1f" ++
  text "202122232425262728292a2b2c2d2e2f" ++
  text "303132333435363738393a3b3c3d3e3f" ++
  text "404142434445464748494a4b4c4d4e4f" ++
  text "505152535455565758595a5b5c5d5e5f" ++
  text "606162636465666768696a6b6c6d6e6f" ++
  text "707172737475767778797a7b7c7d7e7f" ++
  text "808182838485868788898a8b8c8d8e8f" ++
  text "909192939495969798999a9b9c9d9e9f" ++
  text "a0a1a2a3a4a5a6a7a8a9aaabacadaeaf" ++
  text "b0b1b2b3b4b5b6b7b8b9babbbcbdbebf" ++
  text "c0c1c2c3c4c5c6c7c8c9cacbcccdcecf" ++
  text "d0d1d2d3d4d5d6d7d8d9dadbdcdddedf" ++
  text "e0e1e2e3e4e5e6e7e8e9eaebecedeeef" ++
  text "f0f1f2f3f4f5f6f7f8f9fafbfcfdfeff"

def decLookup (c : UInt8) : UInt8 :=
  (List.replicate 48 (0 : UInt8) ++ [0, 1, 2, 3, 4, 5, 6, 7, 8, 9] ++ List.replicate 7 0 ++
    [10, 11, 12, 13, 14, 15] ++ List.replicate 26 0 ++ [10, 11, 12, 13, 14, 15]).getD c.toNat 0

/-- `s[i]`, which is the terminating zero at the end of the string. -/
def charAt (s : Bytes) (i : Nat) : UInt8 := s.getD i 0

/-- What a function that takes `s.c_str()` sees of `s`. -/
def cStr (s : Bytes) : Bytes := s.takeWhile (· ≠ 0)

def isSpace (c : UInt8) : Bool := c = 32 || (9 ≤ c && c ≤ 13)

def lowerCase (c : UInt8) : UInt8 := if 65 ≤ c ∧ c ≤ 90 then c + 32 else c

def hexPair (b : UInt8) : Bytes :=
  [hexLookup.getD (2 * b.toNat) 0, hexLookup.getD (2 * b.toNat + 1) 0]

def hexByte (c d : UInt8) : UInt8 := decLookup c <<< 4 ||| decLookup d

namespace StringUtils

def bin2hex (src : Bytes) : Bytes := src.flatMap hexPair

end StringUtils

namespace Crypto

/-- The loops of `crypto.cpp` count with a 32-bit `uint`; a counter that wraps never ends them. -/
def bin2hexLoop (message : Bytes) : Nat → UInt32 → Bytes → Option Bytes
  | 0, _, _ => none
  | fuel + 1, i, res =>
      if i.toNat < message.length then
        bin2hexLoop message fuel (i + 1) (res ++ hexPair (charAt message i.toNat))
      else some res

def bin2hex (message : Bytes) : Option Bytes :=
  bin2hexLoop message (message.length + 1) 0 []

def hex2binLoop (src : Bytes) : Nat → UInt32 → Bytes → Option Bytes
  | 0, _, _ => none
  | fuel + 1, i, dest =>
      if i.toNat < src.length then
        hex2binLoop src fuel (i + 2)
          (dest ++ [hexByte (charAt src i.toNat) (charAt src (i + 1).toNat)])
      else some dest

def hasPrefix0x (s : Bytes) : Bool := 2 < s.length && charAt s 0 == 48 && charAt s 1 == 120

def hex2bin (src : Bytes) : Option Bytes :=
  hex2binLoop src (src.length + 1) (if hasPrefix0x src then 2 else 0) []

end Crypto

namespace Common

def hexChar (d : UInt8) : UInt8 := if d ≤ 9 then d + 48 else d - 10 + 97

def toHex (s : Bytes) : Bytes := s.flatMap fun c => [hexChar (c / 16), hexChar (c % 16)]

def hex2bin2 : Bytes → Bytes
  | [] => []
  | [c] => [hexByte c 0]
  | c :: d :: rest => hexByte c d :: hex2bin2 rest

def fromHex (hex : Bytes) : Bytes :=
  let start := if hex.take 2 = text "0x" then 2 else 0
  if hex.length % 2 ≠ 0 then [] else hex2bin2 (hex.drop start)

def hexValue (c : UInt8) : Nat :=
  if 48 ≤ c ∧ c ≤ 57 then c.toNat - 48
  else if 97 ≤ c ∧ c ≤ 102 then c.toNat - 97 + 10
  else if 65 ≤ c ∧ c ≤ 70 then c.toNat - 65 + 10
  else 0

def hexStrToInt (str : Bytes) : Nat :=
  let copy := if str.take 2 = text "0x" then str.drop 2 else str
  copy.foldl (fun result c => (result * 16 + hexValue c) % 2 ^ 64) 0

end Common

@[simp] theorem cStr_cStr (s : Bytes) : cStr (cStr s) = cStr s := List.takeWhile_idem

theorem cStr_eq_self {s : Bytes} (terminated : 0 ∉ s) : cStr s = s := by
  apply List.takeWhile_eq_self_iff.mpr
  intro c member
  simpa using ne_of_mem_of_not_mem member terminated

theorem zero_not_mem_cStr (s : Bytes) : 0 ∉ cStr s := fun member => by
  simpa using List.mem_takeWhile_imp member

theorem forall_byte {P : UInt8 → Prop} (h : ∀ n : Fin 256, P (UInt8.ofNat n.val)) (c : UInt8) : P c := by
  have := h ⟨c.toNat, c.toNat_lt⟩
  simpa using this

def hexDigit (d : Nat) : UInt8 := UInt8.ofNat (if d < 10 then 48 + d else 87 + d)

set_option maxRecDepth 20000 in
theorem hexLookup_eq :
    hexLookup = (List.range 256).flatMap fun b => [hexDigit (b / 16), hexDigit (b % 16)] := by
  decide +kernel

theorem flatMap_pair_getD (f g : Nat → UInt8) {n b : Nat} (inside : b < n) :
    ((List.range n).flatMap fun k => [f k, g k]).getD (2 * b) 0 = f b ∧
    ((List.range n).flatMap fun k => [f k, g k]).getD (2 * b + 1) 0 = g b := by
  have length (m : Nat) : ((List.range m).flatMap fun k => [f k, g k]).length = 2 * m := by
    simp [List.length_flatMap, Nat.mul_comm]
  induction n with
  | zero => omega
  | succ n ih =>
      simp only [List.range_succ, List.flatMap_append, List.flatMap_cons, List.flatMap_nil, List.append_nil]
      by_cases last : b = n
      · subst last
        constructor
        · rw [List.getD_append_right _ _ _ _ (length b).le, length b, Nat.sub_self]
          rfl
        · rw [List.getD_append_right _ _ _ _ (by rw [length b]; omega), length b, Nat.add_sub_cancel_left]
          rfl
      · rw [List.getD_append _ _ _ _ (by rw [length n]; omega), List.getD_append _ _ _ _ (by rw [length n]; omega)]
        exact ih (by omega)

theorem hexPair_eq (b : UInt8) : hexPair b = [hexDigit (b.toNat / 16), hexDigit (b.toNat % 16)] := by
  obtain ⟨high, low⟩ := flatMap_pair_getD (fun b => hexDigit (b / 16)) (fun b => hexDigit (b % 16)) b.toNat_lt
  rw [hexPair, hexLookup_eq, ← high, ← low]

theorem decLookup_eq (c : UInt8) : decLookup c = UInt8.ofNat (Common.hexValue c) := by
  revert c
  apply forall_byte
  decide +kernel

theorem hexValue_lt (c : UInt8) : Common.hexValue c < 16 := by
  revert c
  apply forall_byte
  decide +kernel

theorem hexByte_toNat (c d : UInt8) :
    (hexByte c d).toNat = 16 * Common.hexValue c + Common.hexValue d := by
  have nibbles : ∀ a b : Fin 16,
      (UInt8.ofNat a.val <<< 4 ||| UInt8.ofNat b.val).toNat = 16 * a.val + b.val := by decide +kernel
  rw [hexByte, decLookup_eq, decLookup_eq]
  exact nibbles ⟨_, hexValue_lt c⟩ ⟨_, hexValue_lt d⟩

theorem hexValue_hexDigit {d : Nat} (small : d < 16) : Common.hexValue (hexDigit d) = d := by
  have digits : ∀ a : Fin 16, Common.hexValue (hexDigit a.val) = a.val := by decide +kernel
  exact digits ⟨d, small⟩

theorem hexByte_hexDigit (b : UInt8) :
    hexByte (hexDigit (b.toNat / 16)) (hexDigit (b.toNat % 16)) = b := by
  have bound := b.toNat_lt
  apply UInt8.toNat_inj.mp
  rw [hexByte_toNat, hexValue_hexDigit (by omega), hexValue_hexDigit (by omega)]
  omega

theorem hex2bin2_append {s : Bytes} (even : s.length % 2 = 0) (t : Bytes) :
    Common.hex2bin2 (s ++ t) = Common.hex2bin2 s ++ Common.hex2bin2 t := by
  induction s using Common.hex2bin2.induct with
  | case1 => rfl
  | case2 c => simp at even
  | case3 c d rest ih =>
      have even' : rest.length % 2 = 0 := by simp only [List.length_cons] at even; omega
      simp [Common.hex2bin2, ih even']

theorem hex2bin2_length (s : Bytes) : (Common.hex2bin2 s).length = (s.length + 1) / 2 := by
  induction s using Common.hex2bin2.induct with
  | case1 => simp [Common.hex2bin2]
  | case2 c => simp [Common.hex2bin2]
  | case3 c d rest ih => simp only [Common.hex2bin2, List.length_cons, ih]; omega

theorem hex2bin2_map {f : UInt8 → UInt8} (value : ∀ c, Common.hexValue (f c) = Common.hexValue c) (s : Bytes) :
    Common.hex2bin2 (s.map f) = Common.hex2bin2 s := by
  have digit (c : UInt8) : decLookup (f c) = decLookup c := by rw [decLookup_eq, decLookup_eq, value]
  induction s using Common.hex2bin2.induct with
  | case1 => rfl
  | case2 c => simp only [List.map_cons, List.map_nil, Common.hex2bin2, hexByte, digit]
  | case3 c d rest ih => simp only [List.map_cons, Common.hex2bin2, hexByte, digit, ih]

theorem bin2hex_length (b : Bytes) : (StringUtils.bin2hex b).length = 2 * b.length := by
  induction b with
  | nil => rfl
  | cons c b ih =>
      simp only [StringUtils.bin2hex, List.flatMap_cons, List.length_append, List.length_cons] at ih ⊢
      rw [ih, hexPair_eq]
      simp only [List.length_cons, List.length_nil]
      omega

theorem bin2hex_cons (c : UInt8) (b : Bytes) :
    StringUtils.bin2hex (c :: b) =
      hexDigit (c.toNat / 16) :: hexDigit (c.toNat % 16) :: StringUtils.bin2hex b := by
  simp [StringUtils.bin2hex, hexPair_eq]

theorem bin2hex_append (a b : Bytes) :
    StringUtils.bin2hex (a ++ b) = StringUtils.bin2hex a ++ StringUtils.bin2hex b := by
  simp [StringUtils.bin2hex]

theorem hex2bin2_bin2hex (b : Bytes) : Common.hex2bin2 (StringUtils.bin2hex b) = b := by
  induction b with
  | nil => rfl
  | cons c b ih => rw [bin2hex_cons, Common.hex2bin2, ih, hexByte_hexDigit]

theorem bin2hex_injective : Function.Injective StringUtils.bin2hex := by
  intro a b same
  rw [← hex2bin2_bin2hex a, same, hex2bin2_bin2hex]

theorem bin2hex_digit {c : UInt8} {b : Bytes} (member : c ∈ StringUtils.bin2hex b) :
    ∃ d < 16, c = hexDigit d := by
  simp only [StringUtils.bin2hex, List.mem_flatMap, hexPair_eq, List.mem_cons, List.not_mem_nil,
    or_false] at member
  obtain ⟨x, -, rfl | rfl⟩ := member
  · exact ⟨x.toNat / 16, by have := x.toNat_lt; omega, rfl⟩
  · exact ⟨x.toNat % 16, by omega, rfl⟩

theorem toHex_eq (b : Bytes) : Common.toHex b = StringUtils.bin2hex b := by
  have digits : ∀ c : UInt8, [Common.hexChar (c / 16), Common.hexChar (c % 16)] =
      [hexDigit (c.toNat / 16), hexDigit (c.toNat % 16)] := by
    apply forall_byte
    decide +kernel
  rw [Common.toHex, StringUtils.bin2hex, funext digits, funext hexPair_eq]

/-! ## The counting loops -/

theorem hex2bin2_drop {src : Bytes} {k : Nat} (inside : k < src.length) :
    Common.hex2bin2 (src.drop k) =
      hexByte (charAt src k) (charAt src (k + 1)) :: Common.hex2bin2 (src.drop (k + 2)) := by
  rw [List.drop_eq_getElem_cons inside]
  by_cases more : k + 1 < src.length
  · rw [List.drop_eq_getElem_cons more, Common.hex2bin2]
    simp [charAt, inside, more]
  · rw [List.drop_eq_nil_of_le (by omega), List.drop_eq_nil_of_le (by omega)]
    simp [Common.hex2bin2, charAt, inside, more]

theorem hex2binLoop_eq {src : Bytes} (small : src.length + 1 < 2 ^ 32) {fuel : Nat} {i : UInt32}
    (enough : src.length ≤ i.toNat + 2 * fuel) (dest : Bytes) :
    Crypto.hex2binLoop src (fuel + 1) i dest = some (dest ++ Common.hex2bin2 (src.drop i.toNat)) := by
  induction fuel generalizing i dest with
  | zero =>
      have outside : ¬ i.toNat < src.length := by omega
      rw [Crypto.hex2binLoop, if_neg outside, List.drop_eq_nil_of_le (by omega)]
      simp [Common.hex2bin2]
  | succ fuel ih =>
      rw [Crypto.hex2binLoop]
      split
      case isTrue inside =>
        have next : (i + 2).toNat = i.toNat + 2 := by
          rw [UInt32.toNat_add]
          exact Nat.mod_eq_of_lt (by simp; omega)
        have second : (i + 1).toNat = i.toNat + 1 := by
          rw [UInt32.toNat_add]
          exact Nat.mod_eq_of_lt (by simp; omega)
        rw [ih (by omega), hex2bin2_drop inside, next, second]
        simp
      case isFalse outside =>
        simp [List.drop_eq_nil_of_le (Nat.le_of_not_lt outside), Common.hex2bin2]

theorem hex2binLoop_diverges {src : Bytes} (large : 2 ^ 32 ≤ src.length + 1) (fuel : Nat) {i : UInt32}
    (even : i.toNat % 2 = 0) (dest : Bytes) : Crypto.hex2binLoop src fuel i dest = none := by
  induction fuel generalizing i dest with
  | zero => rfl
  | succ fuel ih =>
      have bound := i.toNat_lt
      rw [Crypto.hex2binLoop, if_pos (by omega)]
      apply ih
      rw [UInt32.toNat_add]
      simp
      omega

theorem hex2bin_eq {src : Bytes} (small : src.length + 1 < 2 ^ 32) :
    Crypto.hex2bin src =
      some (Common.hex2bin2 (src.drop (if Crypto.hasPrefix0x src then 2 else 0))) := by
  rw [Crypto.hex2bin, hex2binLoop_eq small (by omega)]
  split <;> simp

theorem hex2bin_eq_none {src : Bytes} (large : 2 ^ 32 ≤ src.length + 1) : Crypto.hex2bin src = none := by
  rw [Crypto.hex2bin]
  exact hex2binLoop_diverges large _ (by split <;> rfl) _

theorem hex2bin_isSome_iff {src : Bytes} : (Crypto.hex2bin src).isSome ↔ src.length + 1 < 2 ^ 32 := by
  constructor
  · intro returns
    by_contra large
    rw [hex2bin_eq_none (Nat.le_of_not_lt large)] at returns
    cases returns
  · intro small
    rw [hex2bin_eq small]
    rfl

theorem hasPrefix0x_cons {a b : UInt8} {s : Bytes} :
    Crypto.hasPrefix0x (a :: b :: s) = (s ≠ [] && a == 48 && b == 120) := by
  cases s <;> simp [Crypto.hasPrefix0x, charAt]

theorem hasPrefix0x_eq_false {s : Bytes} (free : 120 ∉ s) : Crypto.hasPrefix0x s = false := by
  match s with
  | [] => rfl
  | [a] => rfl
  | a :: b :: s =>
      have : b ≠ 120 := fun same => free (by simp [same])
      simp [hasPrefix0x_cons, this]

theorem hex2bin_plain {s : Bytes} (plain : Crypto.hasPrefix0x s = false) :
    Crypto.hex2bin s = if s.length + 1 < 2 ^ 32 then some (Common.hex2bin2 s) else none := by
  split
  case isTrue small => simp [hex2bin_eq small, plain]
  case isFalse large => exact hex2bin_eq_none (by omega)

theorem bin2hexLoop_eq {message : Bytes} (small : message.length < 2 ^ 32) {fuel : Nat} {i : UInt32}
    (enough : message.length ≤ i.toNat + fuel) (res : Bytes) :
    Crypto.bin2hexLoop message (fuel + 1) i res =
      some (res ++ StringUtils.bin2hex (message.drop i.toNat)) := by
  induction fuel generalizing i res with
  | zero =>
      have outside : ¬ i.toNat < message.length := by omega
      rw [Crypto.bin2hexLoop, if_neg outside, List.drop_eq_nil_of_le (by omega)]
      simp [StringUtils.bin2hex]
  | succ fuel ih =>
      rw [Crypto.bin2hexLoop]
      split
      case isTrue inside =>
        -- `i + 1 ≤ message.length < 2^32`, so the counter does not wrap
        have next : (i + 1).toNat = i.toNat + 1 := by
          rw [UInt32.toNat_add]
          exact Nat.mod_eq_of_lt (by simp; omega)
        rw [ih (by omega), next, List.drop_eq_getElem_cons inside]
        simp only [StringUtils.bin2hex, List.flatMap_cons, charAt, List.getD_eq_getElem _ _ inside,
          List.append_assoc]
      case isFalse outside =>
        simp [List.drop_eq_nil_of_le (Nat.le_of_not_lt outside), StringUtils.bin2hex]

theorem bin2hexLoop_diverges {message : Bytes} (large : 2 ^ 32 ≤ message.length) (fuel : Nat) (i : UInt32)
    (res : Bytes) : Crypto.bin2hexLoop message fuel i res = none := by
  induction fuel generalizing i res with
  | zero => rfl
  | succ fuel ih =>
      have inside : i.toNat < message.length := i.toNat_lt.trans_le large
      rw [Crypto.bin2hexLoop, if_pos inside, ih]

theorem length_of_crypto_bin2hex {message hex : Bytes} (returns : Crypto.bin2hex message = some hex) :
    message.length < 2 ^ 32 := by
  by_contra large
  rw [Crypto.bin2hex, bin2hexLoop_diverges (not_lt.mp large)] at returns
  cases returns

theorem crypto_bin2hex_eq {message : Bytes} (small : message.length < 2 ^ 32) :
    Crypto.bin2hex message = some (StringUtils.bin2hex message) := by
  rw [Crypto.bin2hex, bin2hexLoop_eq small (by simp)]
  simp

end FullnodeClient.Text
