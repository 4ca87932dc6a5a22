import Mathlib.Tactic
import Mathlib.Data.List.TakeWhile
import Mathlib.Data.Nat.Digits.Lemmas

/-!
# Numbers written as bytes

Fixed-width base-256 numbers in both byte orders, and decimal text.
-/

namespace FullnodeClient.Lib

abbrev Bytes := List UInt8

def text (s : String) : Bytes := s.toList.map fun c => UInt8.ofNat c.toNat

def littleEndian : Nat → Nat → Bytes
  | 0, _ => []
  | width + 1, n => UInt8.ofNat (n % 256) :: littleEndian width (n / 256)

def valueLE : Bytes → Nat
  | [] => 0
  | b :: bs => b.toNat + 256 * valueLE bs

def bigEndian (width n : Nat) : Bytes := (littleEndian width n).reverse

def valueBE (bs : Bytes) : Nat := valueLE bs.reverse

@[simp] theorem littleEndian_length (width n : Nat) : (littleEndian width n).length = width := by
  induction width generalizing n with
  | zero => rfl
  | succ width ih => simp [littleEndian, ih]

@[simp] theorem bigEndian_length (width n : Nat) : (bigEndian width n).length = width := by
  simp [bigEndian]

theorem valueLE_littleEndian {width n : Nat} (small : n < 256 ^ width) :
    valueLE (littleEndian width n) = n := by
  induction width generalizing n with
  | zero => simp only [pow_zero, Nat.lt_one_iff] at small; simp [littleEndian, valueLE, small]
  | succ width ih =>
      have quotient : n / 256 < 256 ^ width := by
        rw [pow_succ'] at small
        exact Nat.div_lt_of_lt_mul small
      have digit : n % 256 % 2 ^ 8 = n % 256 := by omega
      simp only [littleEndian, valueLE, ih quotient, UInt8.toNat_ofNat', digit]
      omega

theorem valueBE_bigEndian {width n : Nat} (small : n < 256 ^ width) :
    valueBE (bigEndian width n) = n := by
  simp [valueBE, bigEndian, valueLE_littleEndian small]

theorem valueLE_lt (bs : Bytes) : valueLE bs < 256 ^ bs.length := by
  induction bs with
  | nil => simp [valueLE]
  | cons b bs ih =>
      have digit := b.toNat_lt
      simp only [valueLE, List.length_cons, pow_succ]
      omega

theorem valueBE_lt (b : Bytes) : valueBE b < 256 ^ b.length := by
  simpa [valueBE] using valueLE_lt b.reverse

theorem valueLE_append (a b : Bytes) : valueLE (a ++ b) = valueLE a + 256 ^ a.length * valueLE b := by
  induction a with
  | nil => simp [valueLE]
  | cons x a ih =>
      simp only [List.cons_append, valueLE, ih, List.length_cons, pow_succ]
      ring

theorem valueBE_cons (x : UInt8) (b : Bytes) : valueBE (x :: b) = x.toNat * 256 ^ b.length + valueBE b := by
  simp only [valueBE, List.reverse_cons, valueLE_append, List.length_reverse, valueLE]
  ring

theorem littleEndian_valueLE (bs : Bytes) : littleEndian bs.length (valueLE bs) = bs := by
  induction bs with
  | nil => rfl
  | cons b bs ih =>
      have digit := b.toNat_lt
      have low : (b.toNat + 256 * valueLE bs) % 256 = b.toNat := by omega
      have high : (b.toNat + 256 * valueLE bs) / 256 = valueLE bs := by omega
      simp [littleEndian, valueLE, low, high, ih]

theorem littleEndian_injective {width n m : Nat} (hn : n < 256 ^ width) (hm : m < 256 ^ width)
    (same : littleEndian width n = littleEndian width m) : n = m := by
  rw [← valueLE_littleEndian hn, same, valueLE_littleEndian hm]

/-! ## Decimal text -/

def decimalDigit (d : Nat) : UInt8 := UInt8.ofNat (48 + d)

def decimal (n : Nat) : Bytes :=
  if n = 0 then [decimalDigit 0] else (Nat.digits 10 n).reverse.map decimalDigit

theorem decimalDigit_toNat {d : Nat} (small : d < 10) : (decimalDigit d).toNat = 48 + d := by
  simp only [decimalDigit, UInt8.toNat_ofNat']
  omega

theorem decimal_eq (n : Nat) :
    ∃ ds : List Nat, ds ≠ [] ∧ (∀ d ∈ ds, d < 10) ∧ decimal n = ds.map decimalDigit ∧
      Nat.ofDigits 10 ds.reverse = n := by
  by_cases zero : n = 0
  · exact ⟨[0], by simp, by simp, by simp [decimal, zero], by simp [zero]⟩
  · refine ⟨(Nat.digits 10 n).reverse, ?_, ?_, by simp [decimal, zero], ?_⟩
    · simpa using Nat.digits_ne_nil_iff_ne_zero.mpr zero
    · intro d member
      exact Nat.digits_lt_base (by norm_num) (List.mem_reverse.mp member)
    · rw [List.reverse_reverse, Nat.ofDigits_digits]

theorem decimal_ne_nil (n : Nat) : decimal n ≠ [] := by
  obtain ⟨ds, nonempty, -, eq, -⟩ := decimal_eq n
  simpa [eq] using nonempty

theorem decimal_digit {n : Nat} {c : UInt8} (member : c ∈ decimal n) :
    48 ≤ c.toNat ∧ c.toNat ≤ 57 := by
  obtain ⟨ds, -, small, eq, -⟩ := decimal_eq n
  rw [eq] at member
  obtain ⟨d, inside, rfl⟩ := List.mem_map.mp member
  have := small d inside
  rw [decimalDigit_toNat this]
  omega

theorem map_decimalDigit_injective {xs ys : List Nat} (hx : ∀ d ∈ xs, d < 10) (hy : ∀ d ∈ ys, d < 10)
    (same : xs.map decimalDigit = ys.map decimalDigit) : xs = ys := by
  induction xs generalizing ys with
  | nil => simpa using same.symm
  | cons x xs ih =>
      cases ys with
      | nil => simp at same
      | cons y ys =>
          simp only [List.map_cons, List.cons.injEq] at same
          have head := congrArg UInt8.toNat same.1
          rw [decimalDigit_toNat (hx x (by simp)), decimalDigit_toNat (hy y (by simp))] at head
          rw [ih (fun d hd => hx d (by simp [hd])) (fun d hd => hy d (by simp [hd])) same.2]
          congr 1
          omega

theorem decimal_injective {n m : Nat} (same : decimal n = decimal m) : n = m := by
  obtain ⟨xs, -, hx, ex, vx⟩ := decimal_eq n
  obtain ⟨ys, -, hy, ey, vy⟩ := decimal_eq m
  rw [ex, ey] at same
  rw [← vx, ← vy, map_decimalDigit_injective hx hy same]

theorem decimal_length_le {n k : Nat} (positive : 0 < k) (small : n < 10 ^ k) :
    (decimal n).length ≤ k := by
  by_cases zero : n = 0
  · simpa [decimal, zero] using Nat.succ_le_of_lt positive
  · simpa [decimal, zero] using (Nat.digits_length_le_iff (by norm_num) n).mpr small

def isDigit (c : UInt8) : Bool := 48 ≤ c && c ≤ 57

def digitsValue (s : Bytes) : Nat :=
  (s.takeWhile isDigit).foldl (fun value c => value * 10 + (c.toNat - 48)) 0

theorem isDigit_of_mem_decimal {n : Nat} {c : UInt8} (member : c ∈ decimal n) : isDigit c = true := by
  have := decimal_digit member
  simp only [isDigit, Bool.and_eq_true, decide_eq_true_eq, UInt8.le_iff_toNat_le]
  exact this

theorem digitsValue_decimal (n : Nat) : digitsValue (decimal n) = n := by
  have all : (decimal n).takeWhile isDigit = decimal n :=
    List.takeWhile_eq_self_iff.mpr fun c member => isDigit_of_mem_decimal member
  obtain ⟨ds, -, small, eq, value⟩ := decimal_eq n
  rw [digitsValue, all, eq, List.foldl_map, ← value, Nat.ofDigits_eq_foldr, List.foldr_reverse]
  apply List.foldl_ext
  intro acc d member
  rw [decimalDigit_toNat (small d member), Nat.add_sub_cancel_left, Nat.cast_id]
  ring

end FullnodeClient.Lib
