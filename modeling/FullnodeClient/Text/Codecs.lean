import FullnodeClient.Text.Hex

/-!
# The other hex encoders

`string_utils::bin2hex` has two more overloads, one that fills a buffer and one that appends to a string,
and `common::toHex` of a vector fills a buffer of its own. All encoders write the same text, and the
decoders read it back in either case and behind `0x`, as long as the 32-bit counters of `crypto.cpp` last.
-/

namespace FullnodeClient.Text
open FullnodeClient.Lib

def upperCase (c : UInt8) : UInt8 := if 97 ≤ c ∧ c ≤ 122 then c - 32 else c

/-- The loop over `src` from index `i` on that writes the characters `2 * i` and `2 * i + 1` of `dst`.
It is `none` when one of them is outside of `dst`. -/
def fillHex : Bytes → Nat → Bytes → Option Bytes
  | [], _, dst => some dst
  | c :: src, i, dst =>
      if i * 2 + 1 < dst.length then
        fillHex src (i + 1)
          ((dst.set (i * 2) (hexLookup.getD (2 * c.toNat) 0)).set (i * 2 + 1) (hexLookup.getD (2 * c.toNat + 1) 0))
      else none

namespace StringUtils

/-- The overload for a buffer. -/
def bin2hexBuffer (buf res : Bytes) : Option Bytes := fillHex buf 0 res

/-- The overload for strings; it clears nothing. -/
def bin2hexString (buf res : Bytes) : Bytes :=
  buf.foldl (fun res c => (res ++ [hexLookup.getD (2 * c.toNat) 0]) ++ [hexLookup.getD (2 * c.toNat + 1) 0]) res

end StringUtils

namespace Common

def bin2hex2 (src dst : Bytes) : Option Bytes := fillHex src 0 dst

def toHexVector (vec : Bytes) : Option Bytes := bin2hex2 vec (List.replicate (vec.length * 2) 0)

end Common

theorem fillHex_append (src written : Bytes) {i : Nat} (here : written.length = i * 2) {rest : Bytes}
    (room : src.length * 2 ≤ rest.length) :
    fillHex src i (written ++ rest) = some (written ++ StringUtils.bin2hex src ++ rest.drop (src.length * 2)) := by
  induction src generalizing written i rest with
  | nil => simp [fillHex, StringUtils.bin2hex]
  | cons c src ih =>
      rw [List.length_cons] at room
      obtain ⟨x, rest, rfl⟩ := List.exists_cons_of_length_pos (l := rest) (by omega)
      rw [List.length_cons] at room
      obtain ⟨y, rest, rfl⟩ := List.exists_cons_of_length_pos (l := rest) (by omega)
      rw [List.length_cons] at room
      have inside : i * 2 + 1 < (written ++ x :: y :: rest).length := by
        simp only [List.length_append, List.length_cons]
        omega
      have pair : ((written ++ x :: y :: rest).set (i * 2) (hexLookup.getD (2 * c.toNat) 0)).set (i * 2 + 1)
          (hexLookup.getD (2 * c.toNat + 1) 0) = (written ++ hexPair c) ++ rest := by
        rw [← here]
        simp [hexPair]
      have next : (written ++ hexPair c).length = (i + 1) * 2 := by
        simp only [List.length_append, here, hexPair, List.length_cons, List.length_nil]
        omega
      rw [fillHex, if_pos inside, pair, ih (written ++ hexPair c) next (by omega)]
      simp [StringUtils.bin2hex, Nat.add_mul]

theorem bin2hexString_eq (buf res : Bytes) : StringUtils.bin2hexString buf res = res ++ StringUtils.bin2hex buf := by
  induction buf generalizing res with
  | nil => simp [StringUtils.bin2hexString, StringUtils.bin2hex]
  | cons c buf ih =>
      simp only [StringUtils.bin2hexString, List.foldl_cons] at ih ⊢
      rw [ih]
      simp [StringUtils.bin2hex, hexPair]

theorem toHexVector_eq (vec : Bytes) : Common.toHexVector vec = some (StringUtils.bin2hex vec) := by
  have room : vec.length * 2 ≤ (List.replicate (vec.length * 2) (0 : UInt8)).length := by simp
  have filled := fillHex_append vec [] (i := 0) rfl room
  simpa [Common.toHexVector, Common.bin2hex2] using filled

theorem hexValue_upperCase (c : UInt8) : Common.hexValue (upperCase c) = Common.hexValue c := by
  revert c
  apply forall_byte
  decide +kernel

structure Spells (digits b : Bytes) : Prop where
  length : digits.length = 2 * b.length
  bytes : Common.hex2bin2 digits = b
  unmarked : 120 ∉ digits

theorem Spells.lower (b : Bytes) : Spells (StringUtils.bin2hex b) b := by
  have digit : ∀ d : Fin 16, hexDigit d.val ≠ 120 := by decide
  refine ⟨bin2hex_length b, hex2bin2_bin2hex b, ?_⟩
  intro member
  obtain ⟨d, small, same⟩ := bin2hex_digit member
  exact digit ⟨d, small⟩ same.symm

theorem Spells.upper (b : Bytes) : Spells ((StringUtils.bin2hex b).map upperCase) b := by
  have digit : ∀ d : Fin 16, upperCase (hexDigit d.val) ≠ 120 := by decide
  refine ⟨by rw [List.length_map, bin2hex_length], ?_, ?_⟩
  · rw [hex2bin2_map hexValue_upperCase, hex2bin2_bin2hex]
  · intro member
    obtain ⟨c, inside, same⟩ := List.mem_map.mp member
    obtain ⟨d, small, rfl⟩ := bin2hex_digit inside
    exact digit ⟨d, small⟩ same

variable {digits b : Bytes}

theorem Spells.hex2bin (spells : Spells digits b) (small : digits.length + 1 < 2 ^ 32) :
    Crypto.hex2bin digits = some b := by
  rw [hex2bin_plain (hasPrefix0x_eq_false spells.unmarked), if_pos small, spells.bytes]

theorem Spells.hex2bin_marked (spells : Spells digits b) (nonempty : b ≠ [])
    (small : digits.length + 3 < 2 ^ 32) : Crypto.hex2bin (text "0x" ++ digits) = some b := by
  have some_digit : digits ≠ [] := by
    rintro rfl
    exact nonempty spells.bytes.symm
  have marked : Crypto.hasPrefix0x (text "0x" ++ digits) = true := by
    change Crypto.hasPrefix0x (48 :: 120 :: digits) = true
    simp [hasPrefix0x_cons, some_digit]
  rw [hex2bin_eq (by simpa [text] using small), marked, if_pos rfl, List.drop_left' (by rfl), spells.bytes]

theorem Spells.fromHex (spells : Spells digits b) : Common.fromHex digits = b := by
  have plain : digits.take 2 ≠ text "0x" := by
    intro same
    apply spells.unmarked
    apply List.mem_of_mem_take (i := 2)
    rw [same]
    decide
  have even : digits.length % 2 = 0 := by rw [spells.length]; omega
  simp [Common.fromHex, plain, even, spells.bytes]

theorem Spells.fromHex_marked (spells : Spells digits b) : Common.fromHex (text "0x" ++ digits) = b := by
  have even : (text "0x" ++ digits).length % 2 = 0 := by
    rw [List.length_append, spells.length]
    exact Nat.add_mul_mod_self_left 2 2 _
  simp only [Common.fromHex, even, List.take_left' (show (text "0x").length = 2 by rfl), if_true]
  rw [if_neg (by simp), List.drop_left' (by rfl), spells.bytes]

def Decodes (digits b : Bytes) : Prop :=
  Crypto.hex2bin digits = some b ∧ Common.fromHex digits = b ∧
    (b ≠ [] → Crypto.hex2bin (text "0x" ++ digits) = some b ∧ Common.fromHex (text "0x" ++ digits) = b)

theorem Spells.decodes (spells : Spells digits b) (small : b.length < 2 ^ 31 - 1) : Decodes digits b := by
  have length := spells.length
  refine ⟨spells.hex2bin (by omega), spells.fromHex, ?_⟩
  intro nonempty
  exact ⟨spells.hex2bin_marked nonempty (by omega), spells.fromHex_marked⟩

structure CodecsAgree (b : Bytes) : Prop where
  lowerCase : ∀ c ∈ StringUtils.bin2hex b, c ∈ text "0123456789abcdef"
  buffer : ∀ res, b.length * 2 ≤ res.length →
    StringUtils.bin2hexBuffer b res = some (StringUtils.bin2hex b ++ res.drop (b.length * 2))
  string : ∀ res, StringUtils.bin2hexString b res = res ++ StringUtils.bin2hex b
  crypto : Crypto.bin2hex b = some (StringUtils.bin2hex b)
  vector : Common.toHexVector b = some (StringUtils.bin2hex b)
  iterators : Common.toHex b = StringUtils.bin2hex b
  lower : Decodes (StringUtils.bin2hex b) b
  upper : Decodes ((StringUtils.bin2hex b).map Text.upperCase) b

theorem hex2bin_marked_eq_none (large : 2 ^ 31 - 1 ≤ b.length) :
    Crypto.hex2bin (text "0x" ++ StringUtils.bin2hex b) = none := by
  apply hex2bin_eq_none
  rw [List.length_append, bin2hex_length]
  change 2 ^ 32 ≤ 2 + 2 * b.length + 1
  omega

theorem codecs_agree_iff (b : Bytes) : CodecsAgree b ↔ b.length < 2 ^ 31 - 1 := by
  constructor
  · intro agree
    by_contra large
    have nonempty : b ≠ [] := by
      rintro rfl
      exact large (by decide)
    have decoded := (agree.lower.2.2 nonempty).1
    rw [hex2bin_marked_eq_none (Nat.le_of_not_lt large)] at decoded
    cases decoded
  · intro small
    refine ⟨?_, ?_, bin2hexString_eq b, crypto_bin2hex_eq (by omega), toHexVector_eq b, toHex_eq b,
      (Spells.lower b).decodes small, (Spells.upper b).decodes small⟩
    · intro c member
      have digits : ∀ d : Fin 16, hexDigit d.val ∈ text "0123456789abcdef" := by decide
      obtain ⟨d, bound, rfl⟩ := bin2hex_digit member
      exact digits ⟨d, bound⟩
    · intro res room
      exact fillHex_append b [] rfl room

/-- 2 GiB less one byte; the loop of `hex2bin` over the marked text never ends. -/
theorem marked_two_gib_not_decoded :
    Crypto.hex2bin (text "0x" ++ StringUtils.bin2hex (List.replicate (2 ^ 31 - 1) 0)) = none ∧
      ¬ CodecsAgree (List.replicate (2 ^ 31 - 1) 0) := by
  have stuck : Crypto.hex2bin (text "0x" ++ StringUtils.bin2hex (List.replicate (2 ^ 31 - 1) 0)) = none := by
    apply hex2bin_marked_eq_none
    rw [List.length_replicate]
  refine ⟨stuck, ?_⟩
  intro agree
  have nonempty : List.replicate (2 ^ 31 - 1) (0 : UInt8) ≠ [] := by
    rw [ne_eq, List.replicate_eq_nil_iff]
    omega
  have decoded := (agree.lower.2.2 nonempty).1
  rw [stuck] at decoded
  cases decoded

end FullnodeClient.Text
