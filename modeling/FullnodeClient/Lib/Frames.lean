import FullnodeClient.Lib.Delimited
import FullnodeClient.Lib.Positional

/-!
# Streams of length-prefixed strings

A frame is a string behind its length, a stream is a sequence of frames. Every list of bytes is a stream
followed by a tail that is too short for a length, or whose length exceeds the bytes that are left.
-/

namespace FullnodeClient.Lib

variable {width : Nat} {s : Bytes} {ss : List Bytes} {bytes tail : Bytes}

def prefixed (width : Nat) (s : Bytes) : Bytes := bigEndian width s.length ++ s

def stream (width : Nat) (ss : List Bytes) : Bytes := ss.flatMap (prefixed width)

def declared (width : Nat) (bytes : Bytes) : Nat := valueBE (bytes.take width)

structure Overlong (width : Nat) (bytes : Bytes) : Prop where
  whole : width ≤ bytes.length
  long : bytes.length < width + declared width bytes

@[simp] theorem prefixed_length (width : Nat) (s : Bytes) : (prefixed width s).length = width + s.length := by
  simp [prefixed]

@[simp] theorem stream_nil (width : Nat) : stream width [] = [] := rfl

@[simp] theorem stream_cons (width : Nat) (s : Bytes) (ss : List Bytes) :
    stream width (s :: ss) = prefixed width s ++ stream width ss := rfl

theorem bigEndian_valueBE (bytes : Bytes) : bigEndian bytes.length (valueBE bytes) = bytes := by
  rw [bigEndian, valueBE, ← List.length_reverse, littleEndian_valueLE, List.reverse_reverse]

theorem declared_lt (whole : width ≤ bytes.length) : declared width bytes < 256 ^ width := by
  have bound := valueBE_lt (bytes.take width)
  rwa [List.length_take, Nat.min_eq_left whole] at bound

theorem declared_prefixed (sized : s.length < 256 ^ width) (rest : Bytes) :
    declared width (prefixed width s ++ rest) = s.length := by
  rw [declared, prefixed, List.append_assoc, List.take_left' (bigEndian_length width _), valueBE_bigEndian sized]

theorem not_overlong_prefixed (sized : s.length < 256 ^ width) (rest : Bytes) :
    ¬Overlong width (prefixed width s ++ rest) := by
  rintro ⟨-, long⟩
  rw [declared_prefixed sized, List.length_append, prefixed_length] at long
  omega

theorem prefixed_selfDelimiting (width : Nat) : SelfDelimiting (prefixed width) (·.length < 256 ^ width) := by
  intro a b sizedA sizedB r s same
  have lengths : a.length = b.length := by
    rw [← declared_prefixed sizedA r, same, declared_prefixed sizedB]
  obtain ⟨words, rests⟩ := List.append_inj same (by simp [lengths])
  exact ⟨(List.append_inj words (by simp)).2, rests⟩

theorem eq_prefixed_append (whole : width ≤ bytes.length) (fits : width + declared width bytes ≤ bytes.length) :
    bytes = prefixed width ((bytes.drop width).take (declared width bytes)) ++
      bytes.drop (width + declared width bytes) := by
  have length : ((bytes.drop width).take (declared width bytes)).length = declared width bytes := by
    rw [List.length_take, List.length_drop]
    omega
  have front : bigEndian width (declared width bytes) = bytes.take width := by
    have read := bigEndian_valueBE (bytes.take width)
    rwa [List.length_take, Nat.min_eq_left whole] at read
  rw [prefixed, length, front, List.append_assoc, ← List.drop_drop, List.take_append_drop, List.take_append_drop]

theorem exists_stream (positive : 0 < width) (bytes : Bytes) :
    ∃ ss tail, bytes = stream width ss ++ tail ∧ (tail.length < width ∨ Overlong width tail) := by
  induction length : bytes.length using Nat.strong_induction_on generalizing bytes with
  | _ n ih =>
      by_cases short : bytes.length < width
      · exact ⟨[], bytes, rfl, .inl short⟩
      have whole := not_lt.mp short
      by_cases long : bytes.length < width + declared width bytes
      · exact ⟨[], bytes, rfl, .inr ⟨whole, long⟩⟩
      have split := eq_prefixed_append whole (not_lt.mp long)
      have shorter : (bytes.drop (width + declared width bytes)).length < n := by
        rw [List.length_drop]
        omega
      obtain ⟨ss, tail, eq, ends⟩ := ih _ shorter _ rfl
      refine ⟨(bytes.drop width).take (declared width bytes) :: ss, tail, ?_, ends⟩
      rw [stream_cons, List.append_assoc, ← eq]
      exact split

theorem length_le_stream (width : Nat) (member : s ∈ ss) : s.length ≤ (stream width ss).length := by
  have inside := List.sublist_flatten_of_mem (List.mem_map_of_mem (f := prefixed width) member)
  have length := inside.length_le
  rw [← List.flatMap_def, prefixed_length] at length
  exact Nat.le_of_add_left_le length

-- The frames of a stream are found from the front, so no overlong tail is left of it.
theorem not_overlong_of_stream (positive : 0 < width) (sized : (stream width ss).length < 256 ^ width)
    {front : List Bytes} (same : stream width ss = stream width front ++ tail) : ¬Overlong width tail := by
  induction front generalizing ss with
  | nil =>
      rw [stream_nil, List.nil_append] at same
      subst same
      cases ss with
      | nil =>
          rintro ⟨whole, -⟩
          rw [stream_nil, List.length_nil] at whole
          omega
      | cons s ss => exact not_overlong_prefixed ((length_le_stream width List.mem_cons_self).trans_lt sized) _
  | cons t front ih =>
      have sizedT : t.length < 256 ^ width := by
        refine lt_of_le_of_lt ?_ sized
        rw [same, stream_cons, List.length_append, List.length_append, prefixed_length]
        omega
      cases ss with
      | nil =>
          have length := congrArg List.length same
          simp only [stream_nil, List.length_nil, stream_cons, List.length_append, prefixed_length] at length
          omega
      | cons s ss =>
          have sizedS := (length_le_stream width (List.mem_cons_self (a := s) (l := ss))).trans_lt sized
          rw [stream_cons, stream_cons, List.append_assoc] at same
          obtain ⟨rfl, rest⟩ := prefixed_selfDelimiting width _ _ sizedS sizedT _ _ same
          refine ih ?_ rest
          rw [stream_cons, List.length_append] at sized
          omega

end FullnodeClient.Lib
