import FullnodeClient.Text.Hex

/-!
# Reversing the bytes of a hex text

`utils::reverse_byte_order` exchanges characters in place, two for each byte.
-/

namespace FullnodeClient.Tx
open FullnodeClient.Lib FullnodeClient.Text

def swapIndex (sz i : Nat) : Nat := if i % 2 = 1 then sz - i else sz - i - 2

def swapChars (hex : Bytes) (i j : Nat) : Bytes := (hex.set i (charAt hex j)).set j (charAt hex i)

def reverseSteps (hex : Bytes) (steps : Nat) : Bytes :=
  (List.range steps).foldl (fun h i => swapChars h i (swapIndex hex.length i)) hex

def reverseByteOrder (hex : Bytes) : Bytes :=
  reverseSteps hex (hex.length / 2 - hex.length / 2 % 2)

/-- Step `i` with its indices looked at: `none` when one is below zero or behind the last character. -/
def swapChecked (sz : Nat) (hex : Bytes) (i : Nat) : Option Bytes :=
  let j : Int := if i % 2 = 1 then sz - i else sz - i - 2
  if i < hex.length ∧ 0 ≤ j ∧ j < hex.length then some (swapChars hex i j.toNat) else none

def reverseByteOrderChecked (hex : Bytes) : Option Bytes :=
  (List.range (hex.length / 2 - hex.length / 2 % 2)).foldlM (swapChecked hex.length) hex

theorem swapChars_length (hex : Bytes) (i j : Nat) : (swapChars hex i j).length = hex.length := by
  simp [swapChars]

theorem charAt_swapChars {hex : Bytes} {i j : Nat} (hi : i < hex.length) (hj : j < hex.length) (p : Nat) :
    charAt (swapChars hex i j) p =
      if p = j then charAt hex i else if p = i then charAt hex j else charAt hex p := by
  simp only [charAt, swapChars, List.getD_eq_getElem?_getD, List.getElem?_set, List.length_set, hi, hj,
    if_true, eq_comm (a := p)]
  split_ifs <;> rfl

theorem reverseSteps_length (hex : Bytes) (steps : Nat) : (reverseSteps hex steps).length = hex.length := by
  induction steps with
  | zero => rfl
  | succ steps ih =>
      simp only [reverseSteps, List.range_succ, List.foldl_append, List.foldl_cons, List.foldl_nil] at ih ⊢
      rw [swapChars_length, ih]

theorem reverseByteOrder_length (hex : Bytes) : (reverseByteOrder hex).length = hex.length :=
  reverseSteps_length hex _

theorem charAt_reverseSteps {hex : Bytes} {k : Nat} (even : hex.length = 2 * k) {steps : Nat}
    (bound : steps ≤ k - k % 2) {p : Nat} (inside : p < hex.length) :
    charAt (reverseSteps hex steps) p =
      if p < steps ∨ swapIndex hex.length p < steps then charAt hex (swapIndex hex.length p)
      else charAt hex p := by
  induction steps generalizing p with
  | zero => simp [reverseSteps]
  | succ steps ih =>
      have partner : swapIndex hex.length steps < hex.length := by unfold swapIndex; split <;> omega
      have here : steps < hex.length := by omega
      simp only [reverseSteps, List.range_succ, List.foldl_append, List.foldl_cons, List.foldl_nil]
      change charAt (swapChars (reverseSteps hex steps) steps (swapIndex hex.length steps)) p = _
      rw [charAt_swapChars (by rwa [reverseSteps_length]) (by rwa [reverseSteps_length]),
        ih (by omega) here, ih (by omega) partner, ih (by omega) inside]
      -- the partner of a partner is the position itself
      have involution : ∀ q, q < hex.length → swapIndex hex.length (swapIndex hex.length q) = q := by
        intro q hq
        unfold swapIndex
        split_ifs <;> omega
      have back := involution steps here
      have backP := involution p inside
      have parity : steps < swapIndex hex.length steps := by unfold swapIndex; split <;> omega
      rw [back]
      by_cases atPartner : p = swapIndex hex.length steps
      · subst atPartner
        simp [back, parity.not_gt]
      · by_cases atStep : p = steps
        · subst atStep
          have late : ¬ swapIndex hex.length p < p := parity.not_gt
          simp [atPartner, late]
        · have other : swapIndex hex.length p ≠ steps := by
            intro same
            rw [same] at backP
            exact atPartner backP.symm
          have cut : (p < steps + 1 ∨ swapIndex hex.length p < steps + 1) ↔
              (p < steps ∨ swapIndex hex.length p < steps) := by omega
          rw [if_neg atPartner, if_neg atStep]
          exact if_congr cut.symm rfl rfl

theorem charAt_reverseByteOrder {hex : Bytes} {k : Nat} (even : hex.length = 2 * k) {p : Nat}
    (inside : p < hex.length) :
    charAt (reverseByteOrder hex) p = charAt hex (2 * (k - 1 - p / 2) + p % 2) := by
  have half : hex.length / 2 = k := by omega
  have index : swapIndex hex.length p = 2 * (k - 1 - p / 2) + p % 2 := by
    unfold swapIndex
    split <;> omega
  rw [reverseByteOrder, half, charAt_reverseSteps even le_rfl inside]
  split
  · rw [index]
  · -- only the byte in the middle is never exchanged
    rename_i middle
    rw [index] at middle
    congr 1
    omega

theorem reverseByteOrder_involutive {hex : Bytes} (even : hex.length % 2 = 0) :
    reverseByteOrder (reverseByteOrder hex) = hex := by
  obtain ⟨k, length⟩ : ∃ k, hex.length = 2 * k := ⟨hex.length / 2, by omega⟩
  have reversed : (reverseByteOrder hex).length = 2 * k := by rw [reverseByteOrder_length, length]
  apply List.ext_getElem
  · rw [reverseByteOrder_length, reverseByteOrder_length]
  · intro p _ inside
    rw [← List.getD_eq_getElem _ 0, ← List.getD_eq_getElem _ 0]
    change charAt _ p = charAt hex p
    rw [charAt_reverseByteOrder reversed (by omega), charAt_reverseByteOrder length (by omega)]
    congr 1
    omega

theorem swapChecked_eq {sz i : Nat} {hex : Bytes} (length : hex.length = sz) (half : i < sz / 2) :
    swapChecked sz hex i = some (swapChars hex i (swapIndex sz i)) := by
  have index : (if i % 2 = 1 then (sz : Int) - i else sz - i - 2) = (swapIndex sz i : Nat) := by
    unfold swapIndex
    split <;> omega
  have partner : swapIndex sz i < sz := by
    unfold swapIndex
    split <;> omega
  simp only [swapChecked, index, length]
  rw [if_pos ⟨by omega, by omega, by omega⟩, Int.toNat_natCast]

theorem reverseByteOrder_checked (hex : Bytes) : reverseByteOrderChecked hex = some (reverseByteOrder hex) := by
  have steps (n : Nat) (half : n ≤ hex.length / 2) :
      (List.range n).foldlM (swapChecked hex.length) hex = some (reverseSteps hex n) := by
    induction n with
    | zero => rfl
    | succ n ih =>
        rw [List.range_succ, List.foldlM_append, ih (by omega)]
        simp only [Option.bind_eq_bind, Option.bind_some, List.foldlM_cons, List.foldlM_nil]
        rw [swapChecked_eq (reverseSteps_length hex n) (by omega)]
        simp [reverseSteps, List.range_succ]
  exact steps _ (Nat.sub_le _ _)

theorem hex2bin2_getElem? (s : Bytes) (i : Nat) :
    (Common.hex2bin2 s)[i]? =
      if 2 * i < s.length then some (hexByte (charAt s (2 * i)) (charAt s (2 * i + 1))) else none := by
  induction s using Common.hex2bin2.induct generalizing i with
  | case1 => simp [Common.hex2bin2]
  | case2 c =>
      cases i with
      | zero => simp [Common.hex2bin2, charAt]
      | succ i => simp [Common.hex2bin2]
  | case3 c d rest ih =>
      cases i with
      | zero => simp [Common.hex2bin2, charAt]
      | succ i =>
          have index : 2 * (i + 1) = 2 * i + 2 := by ring
          simp only [Common.hex2bin2, List.getElem?_cons_succ, ih, List.length_cons, charAt, index]
          simp

theorem hex2bin2_reverseByteOrder {hex : Bytes} (even : hex.length % 2 = 0) :
    Common.hex2bin2 (reverseByteOrder hex) = (Common.hex2bin2 hex).reverse := by
  obtain ⟨k, length⟩ : ∃ k, hex.length = 2 * k := ⟨hex.length / 2, by omega⟩
  have bytes : (Common.hex2bin2 hex).length = k := by rw [hex2bin2_length]; omega
  apply List.ext_getElem?
  intro i
  rw [hex2bin2_getElem?, reverseByteOrder_length]
  by_cases inside : i < k
  · rw [if_pos (by omega), List.getElem?_reverse (by omega), bytes, hex2bin2_getElem?, if_pos (by omega),
      charAt_reverseByteOrder length (by omega), charAt_reverseByteOrder length (by omega)]
    congr 3 <;> omega
  · rw [if_neg (by omega), List.getElem?_eq_none (by simp; omega)]

theorem hexFold_eq {s : Bytes} (even : s.length % 2 = 0) (r : Nat) :
    s.foldl (fun result c => (result * 16 + Common.hexValue c) % 2 ^ 64) r % 2 ^ 64 =
      (r * 256 ^ (s.length / 2) + valueBE (Common.hex2bin2 s)) % 2 ^ 64 := by
  induction s using Common.hex2bin2.induct generalizing r with
  | case1 => simp [Common.hex2bin2, valueBE, valueLE]
  | case2 c => simp at even
  | case3 c d rest ih =>
      have even' : rest.length % 2 = 0 := by simp only [List.length_cons] at even; omega
      have half : (rest.length + 1 + 1) / 2 = rest.length / 2 + 1 := by omega
      have bytes : (rest.length + 1) / 2 = rest.length / 2 := by omega
      have step : ((r * 16 + Common.hexValue c) % 2 ^ 64 * 16 + Common.hexValue d) % 2 ^ 64 =
          (r * 256 + (16 * Common.hexValue c + Common.hexValue d)) % 2 ^ 64 := by omega
      simp only [List.foldl_cons, List.length_cons, Common.hex2bin2, valueBE_cons, hex2bin2_length,
        hexByte_toNat, half, bytes, pow_succ 256]
      rw [ih even', step, Nat.add_mod, Nat.mod_mul_mod, ← Nat.add_mod]
      congr 1
      ring

theorem hexFold_lt (s : Bytes) {r : Nat} (small : r < 2 ^ 64) :
    s.foldl (fun result c => (result * 16 + Common.hexValue c) % 2 ^ 64) r < 2 ^ 64 := by
  induction s generalizing r with
  | nil => exact small
  | cons c s ih => exact ih (Nat.mod_lt _ (by norm_num))

theorem hexStrToInt_eq {s : Bytes} (even : s.length % 2 = 0) (short : s.length ≤ 16) :
    Common.hexStrToInt s = valueBE (Common.hex2bin2 s) := by
  have whole : ∀ t : Bytes, t.length % 2 = 0 → t.length ≤ 16 →
      t.foldl (fun result c => (result * 16 + Common.hexValue c) % 2 ^ 64) 0 =
        valueBE (Common.hex2bin2 t) := by
    intro t even short
    have value := hexFold_eq even 0
    have fits : valueBE (Common.hex2bin2 t) < 2 ^ 64 := by
      refine (valueBE_lt _).trans_le ?_
      rw [hex2bin2_length, show (2 : Nat) ^ 64 = 256 ^ 8 by norm_num]
      exact Nat.pow_le_pow_right (by norm_num) (by omega)
    rwa [zero_mul, zero_add, Nat.mod_eq_of_lt fits, Nat.mod_eq_of_lt (hexFold_lt t (by norm_num))] at value
  rw [Common.hexStrToInt]
  split
  case isTrue stripped =>
    obtain ⟨rest, rfl⟩ : ∃ rest, s = 48 :: 120 :: rest := ⟨s.drop 2, by
      conv_lhs => rw [← List.take_append_drop 2 s, stripped]
      rfl⟩
    simp only [List.length_cons] at even short
    rw [Common.hex2bin2, valueBE_cons, show hexByte 48 120 = 0 by decide]
    simpa using whole rest (by omega) (by omega)
  case isFalse => exact whole s even short

theorem hexStrToInt_reverseByteOrder {s : Bytes} (even : s.length % 2 = 0) (short : s.length ≤ 16) :
    Common.hexStrToInt (reverseByteOrder s) = valueLE (Common.hex2bin2 s) := by
  rw [hexStrToInt_eq (by rwa [reverseByteOrder_length]) (by rwa [reverseByteOrder_length]),
    hex2bin2_reverseByteOrder even, valueBE, List.reverse_reverse]

end FullnodeClient.Tx
