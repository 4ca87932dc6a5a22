import FullnodeClient.Lib.Frames

/-!
# Dumps of several blocks

`sync/utils/serialize.h`, `cache/compress.cpp` and `parseDumpBlocksBinary` of `generate_json.cpp`. The cursor
of the decoder has 64 bits and is moved by lengths that come from the network.
-/

namespace FullnodeClient.Torrent
open FullnodeClient.Lib

/-- A `std::string` has a length below `2 ^ 63`. -/
structure StdString where
  bytes : Bytes
  fits : bytes.length < 2 ^ 63

inductive Failure
  | check (message : Bytes) (line : Nat)
  | outOfRange
deriving DecidableEq

def substr (s : Bytes) (pos count : Nat) : Except Failure Bytes :=
  if s.length < pos then .error .outOfRange else .ok ((s.drop pos).take count)

def toBinaryLoop : Nat → Nat → Bytes → Bytes
  | 0, _, result => result
  | i + 1, val, result =>
      if val = 0 then result else toBinaryLoop i (val / 256) (result.set i (UInt8.ofNat (val % 256)))

def toBinaryStringBigEndian (width val : Nat) : Bytes := toBinaryLoop width val (List.replicate width 0)

def serializeStringBigEndian (str : Bytes) : Bytes := toBinaryStringBigEndian 8 str.length ++ str

def fromBinaryStringBigEndian (width : Nat) (raw : Bytes) (fromPos : Nat) : Nat × Nat :=
  if raw.length < (width + fromPos) % 2 ^ 64 then (0, fromPos)
  else
    (((raw.drop fromPos).take width).foldl (fun val c => (val * 256 + c.toNat) % 2 ^ (8 * width)) 0,
      (fromPos + width) % 2 ^ 64)

def deserializeStringAt (raw : Bytes) (fromPos : Nat) : Except Failure (Bytes × Nat) :=
  let (sizeString, endPos) := fromBinaryStringBigEndian 8 raw fromPos
  if fromPos = endPos then .ok ([], endPos)
  else (substr raw endPos sizeString).map fun str => (str, (endPos + sizeString) % 2 ^ 64)

def incorrectRaw : Failure := .check (text "Incorrect raw") 141

def deserializeStringBigEndian (raw : Bytes) (fromPos : Nat) : Except Failure (Bytes × Nat) := do
  let (str, endPos) ← deserializeStringAt raw fromPos
  if endPos = fromPos then throw incorrectRaw
  return (str, endPos)

/-! ## Compression -/

/-- What `LZ4_decompress_safe` yields from a source, its size and a capacity, if it does not fail. -/
structure Lz4 where
  decompressSafe : Bytes → Int → Int → Option Bytes
  bounded : ∀ src size capacity out, decompressSafe src size capacity = some out → (out.length : Int) ≤ capacity

def toInt (n : Nat) : Int := (n : Int).bmod (2 ^ 32)

def origSize (src : Bytes) : Nat := valueLE (src.take 4)

/-- The buffer after a call that failed with `junk` written to it. -/
def spoiled (junk dst : Bytes) : Bytes := (junk ++ dst.drop junk.length).take dst.length

def decompressUint32Block (lz4 : Lz4) (junk src dst : Bytes) (maxSize : Nat) : Bool × Bytes :=
  if src.length ≤ 4 then (false, dst)
  else if maxSize < origSize src then (false, dst)
  else
    let dst := dst ++ List.replicate (origSize src - dst.length) 0
    match lz4.decompressSafe (src.drop 4) (toInt (src.length - 4)) (toInt dst.length) with
    | none => (false, spoiled junk dst)
    | some out => (true, out)

def decompress (lz4 : Lz4) (junk value : Bytes) : Bytes :=
  (decompressUint32Block lz4 junk value [] (2 ^ 32 - 1)).2

def Lz4.output (lz4 : Lz4) (s : Bytes) : Option Bytes :=
  if s.length ≤ 4 then none else lz4.decompressSafe (s.drop 4) (s.length - 4 : Nat) (origSize s)

def Lz4.narrowed (lz4 : Lz4) (s : Bytes) : Option Bytes :=
  lz4.decompressSafe (s.drop 4) (toInt (s.length - 4)) (toInt (origSize s))

section
variable {lz4 : Lz4} {junk s : Bytes}

theorem origSize_lt (s : Bytes) : origSize s < 2 ^ 32 := by
  have bound := valueLE_lt (s.take 4)
  have short : (s.take 4).length ≤ 4 := List.length_take_le 4 s
  exact bound.trans_le (Nat.pow_le_pow_right (by norm_num) short)

theorem decompress_short (short : s.length ≤ 4) : decompress lz4 junk s = [] := by
  rw [decompress, decompressUint32Block, if_pos short]

theorem decompress_long (long : 4 < s.length) :
    decompress lz4 junk s = (lz4.narrowed s).getD (spoiled junk (List.replicate (origSize s) 0)) := by
  have fits : ¬2 ^ 32 - 1 < origSize s := by
    have := origSize_lt s
    omega
  rw [decompress, decompressUint32Block, if_neg (not_le.mpr long), if_neg fits]
  simp only [List.nil_append, List.length_nil, Nat.sub_zero, List.length_replicate, Lz4.narrowed]
  cases lz4.decompressSafe (s.drop 4) (toInt (s.length - 4)) (toInt (origSize s)) with
  | none => rfl
  | some out => rfl

theorem eq_nil_of_no_capacity {src out : Bytes} {size capacity : Int} (zero : capacity = 0)
    (done : lz4.decompressSafe src size capacity = some out) : out = [] := by
  have bound := lz4.bounded _ _ _ _ done
  have none : out.length = 0 := by omega
  exact List.length_eq_zero_iff.mp none

end

def parseDumpBlocksLoop (r : Bytes) : Nat → Nat → List Bytes → Option (Except Failure (List Bytes))
  | 0, _, _ => none
  | fuel + 1, cursor, res =>
      if cursor < r.length then
        match deserializeStringBigEndian r cursor with
        | .error failure => some (.error failure)
        | .ok (str, next) => parseDumpBlocksLoop r fuel next (res ++ [str])
      else some (.ok res)

def parseDumpBlocksBinary (lz4 : Lz4) (junk response : Bytes) (isCompress : Bool) (fuel : Nat) :
    Option (Except Failure (List Bytes)) :=
  parseDumpBlocksLoop (if isCompress then decompress lz4 junk response else response) fuel 0 []

section
variable (lz4 : Lz4) (junk : Bytes) (r : StdString)

def Returns (ds : List Bytes) : Prop := ∃ fuel, parseDumpBlocksBinary lz4 junk r.bytes false fuel = some (.ok ds)

def Throws : Prop := ∃ fuel failure, parseDumpBlocksBinary lz4 junk r.bytes false fuel = some (.error failure)

end

theorem toBinaryLoop_eq (i val : Nat) (rest : Bytes) :
    toBinaryLoop i val (List.replicate i 0 ++ rest) = bigEndian i val ++ rest := by
  induction i generalizing val rest with
  | zero => rfl
  | succ i ih =>
      have digits : bigEndian (i + 1) val = bigEndian i (val / 256) ++ [UInt8.ofNat (val % 256)] := by
        simp [bigEndian, littleEndian]
      have zeros : List.replicate (i + 1) (0 : UInt8) ++ rest = List.replicate i 0 ++ 0 :: rest := by
        rw [List.replicate_succ', List.append_assoc, List.singleton_append]
      rw [toBinaryLoop, zeros]
      split
      case isTrue zero =>
        have none (k : Nat) : bigEndian k 0 = List.replicate k 0 := by
          induction k with
          | zero => rfl
          | succ k ih =>
              rw [bigEndian, littleEndian, List.reverse_cons, List.replicate_succ']
              exact congrArg (· ++ [0]) ih
        rw [zero, none, ← zeros]
      case isFalse =>
        have placed : (List.replicate i (0 : UInt8) ++ 0 :: rest).set i (UInt8.ofNat (val % 256)) =
            List.replicate i 0 ++ UInt8.ofNat (val % 256) :: rest := by
          rw [List.set_append_right _ _ (by simp)]
          simp
        rw [placed, ih, digits, List.append_assoc, List.singleton_append]

theorem serializeStringBigEndian_eq : serializeStringBigEndian = prefixed 8 := by
  funext str
  have written := toBinaryLoop_eq 8 str.length []
  rw [List.append_nil, List.append_nil] at written
  rw [serializeStringBigEndian, prefixed, toBinaryStringBigEndian, written]

theorem foldl_valueBE (width : Nat) (bytes : Bytes) (acc : Nat)
    (fits : acc * 256 ^ bytes.length + valueBE bytes < 256 ^ width) :
    bytes.foldl (fun val c => (val * 256 + c.toNat) % 2 ^ (8 * width)) acc =
      acc * 256 ^ bytes.length + valueBE bytes := by
  induction bytes generalizing acc with
  | nil => simp [valueBE, valueLE]
  | cons c bytes ih =>
      have power : (2 : Nat) ^ (8 * width) = 256 ^ width := by norm_num [pow_mul]
      have value : acc * 256 ^ (c :: bytes).length + valueBE (c :: bytes) =
          (acc * 256 + c.toNat) * 256 ^ bytes.length + valueBE bytes := by
        rw [valueBE_cons, List.length_cons, pow_succ]
        ring
      rw [value] at fits ⊢
      have small : acc * 256 + c.toNat < 256 ^ width := by
        refine lt_of_le_of_lt ?_ fits
        exact (Nat.le_mul_of_pos_right _ (by positivity)).trans (Nat.le_add_right _ _)
      rw [List.foldl_cons, power, Nat.mod_eq_of_lt small, ← power]
      exact ih _ fits

/-! ## Passes -/

def declaredAt (r : Bytes) (cursor : Nat) : Nat := declared 8 (r.drop cursor)

variable {r : Bytes} {cursor : Nat}

theorem fromBinaryStringBigEndian_eq (fits : r.length < 2 ^ 63) (whole : cursor + 8 ≤ r.length) :
    fromBinaryStringBigEndian 8 r cursor = (declaredAt r cursor, cursor + 8) := by
  have length : ((r.drop cursor).take 8).length = 8 := by
    rw [List.length_take, List.length_drop]
    omega
  have small := valueBE_lt ((r.drop cursor).take 8)
  rw [length] at small
  have value := foldl_valueBE 8 ((r.drop cursor).take 8) 0 (by simpa using small)
  rw [Nat.zero_mul, Nat.zero_add] at value
  have enough : ¬r.length < (8 + cursor) % 2 ^ 64 := by omega
  rw [fromBinaryStringBigEndian, if_neg enough, value, Nat.mod_eq_of_lt (by omega)]
  rfl

theorem declaredAt_lt (whole : cursor + 8 ≤ r.length) : declaredAt r cursor < 2 ^ 64 := by
  have bound : declared 8 (r.drop cursor) < 256 ^ 8 := declared_lt (by rw [List.length_drop]; omega)
  exact bound

theorem deserializeStringBigEndian_cases (fits : r.length < 2 ^ 63) (inside : cursor < r.length) :
    ((r.length < cursor + 8 ∨ declaredAt r cursor = 2 ^ 64 - 8) ∧
      deserializeStringBigEndian r cursor = .error incorrectRaw) ∨
    (cursor + 8 ≤ r.length ∧ declaredAt r cursor ≠ 2 ^ 64 - 8 ∧
      deserializeStringBigEndian r cursor = .ok ((r.drop (cursor + 8)).take (declaredAt r cursor),
        (cursor + 8 + declaredAt r cursor) % 2 ^ 64)) := by
  by_cases short : r.length < cursor + 8
  · have few : r.length < (8 + cursor) % 2 ^ 64 := by omega
    have read : fromBinaryStringBigEndian 8 r cursor = (0, cursor) := if_pos few
    refine .inl ⟨.inl short, ?_⟩
    simp only [deserializeStringBigEndian, deserializeStringAt, read, if_true, bind, Except.bind]
    rfl
  · have whole := not_lt.mp short
    have small := declaredAt_lt whole
    have moved : cursor ≠ cursor + 8 := by omega
    have room : ¬r.length < cursor + 8 := short
    have same : (cursor + 8 + declaredAt r cursor) % 2 ^ 64 = cursor ↔ declaredAt r cursor = 2 ^ 64 - 8 := by omega
    by_cases back : declaredAt r cursor = 2 ^ 64 - 8
    · refine .inl ⟨.inr back, ?_⟩
      simp only [deserializeStringBigEndian, deserializeStringAt, fromBinaryStringBigEndian_eq fits whole, if_neg moved,
        substr, if_neg room, Except.map, bind, Except.bind, if_pos (same.mpr back)]
      rfl
    · refine .inr ⟨whole, back, ?_⟩
      simp only [deserializeStringBigEndian, deserializeStringAt, fromBinaryStringBigEndian_eq fits whole, if_neg moved,
        substr, if_neg room, Except.map, bind, Except.bind, if_neg (mt same.mp back)]
      rfl

inductive Reaches (r : Bytes) : Nat → Prop
  | start : Reaches r 0
  | pass {cursor next : Nat} {str : Bytes} : Reaches r cursor → cursor < r.length →
      deserializeStringBigEndian r cursor = .ok (str, next) → Reaches r next

variable {fuel : Nat} {res : List Bytes}

theorem parseDumpBlocksLoop_add {result : Except Failure (List Bytes)}
    (ended : parseDumpBlocksLoop r fuel cursor res = some result) (more : Nat) :
    parseDumpBlocksLoop r (fuel + more) cursor res = some result := by
  induction fuel generalizing cursor res with
  | zero => cases ended
  | succ fuel ih =>
      rw [Nat.succ_add]
      simp only [parseDumpBlocksLoop] at ended ⊢
      split at ended
      case isTrue inside =>
        rw [if_pos inside]
        split at ended
        case h_1 => exact ended
        case h_2 => exact ih ended
      case isFalse outside => rwa [if_neg outside]

theorem parseDumpBlocksLoop_unique {fuel' : Nat} {result result' : Except Failure (List Bytes)}
    (ended : parseDumpBlocksLoop r fuel cursor res = some result)
    (ended' : parseDumpBlocksLoop r fuel' cursor res = some result') : result = result' := by
  have first := parseDumpBlocksLoop_add ended fuel'
  have second := parseDumpBlocksLoop_add ended' fuel
  rw [Nat.add_comm] at second
  exact Option.some.inj (first.symm.trans second)

theorem parseDumpBlocksLoop_pass {str : Bytes} {next : Nat} (inside : cursor < r.length)
    (passed : deserializeStringBigEndian r cursor = .ok (str, next)) :
    parseDumpBlocksLoop r (fuel + 1) cursor res = parseDumpBlocksLoop r fuel next (res ++ [str]) := by
  simp only [parseDumpBlocksLoop, if_pos inside, passed]

def Breaks (r : Bytes) (cursor : Nat) : Prop :=
  cursor < r.length ∧ (r.length < cursor + 8 ∨ declaredAt r cursor = 2 ^ 64 - 8)

theorem breaks_of_error {failure : Failure} (fits : r.length < 2 ^ 63) (inside : cursor < r.length)
    (failed : deserializeStringBigEndian r cursor = .error failure) : Breaks r cursor := by
  rcases deserializeStringBigEndian_cases fits inside with ⟨breaks, -⟩ | ⟨-, -, passed⟩
  · exact ⟨inside, breaks⟩
  · cases passed.symm.trans failed

theorem Breaks.error (breaks : Breaks r cursor) (fits : r.length < 2 ^ 63) :
    deserializeStringBigEndian r cursor = .error incorrectRaw := by
  rcases deserializeStringBigEndian_cases fits breaks.1 with ⟨-, failed⟩ | ⟨whole, moves, -⟩
  · exact failed
  · rcases breaks.2 with short | back
    · omega
    · exact absurd back moves

theorem Reaches.loop (reached : Reaches r cursor) :
    ∃ passes res, ∀ fuel, parseDumpBlocksLoop r (fuel + passes) 0 [] = parseDumpBlocksLoop r fuel cursor res := by
  induction reached with
  | start => exact ⟨0, [], fun fuel => rfl⟩
  | @pass cursor next str reached inside passed ih =>
      obtain ⟨passes, res, looped⟩ := ih
      refine ⟨passes + 1, res ++ [str], fun fuel => ?_⟩
      rw [Nat.add_comm passes, ← Nat.add_assoc, looped, parseDumpBlocksLoop_pass inside passed]

theorem breaks_of_loop {failure : Failure} (fits : r.length < 2 ^ 63) (reached : Reaches r cursor)
    (threw : parseDumpBlocksLoop r fuel cursor res = some (.error failure)) :
    ∃ cursor, Reaches r cursor ∧ Breaks r cursor := by
  induction fuel generalizing cursor res with
  | zero => cases threw
  | succ fuel ih =>
      simp only [parseDumpBlocksLoop] at threw
      split at threw
      case isTrue inside =>
        split at threw
        case h_1 failed => exact ⟨cursor, reached, breaks_of_error fits inside failed⟩
        case h_2 passed => exact ih (.pass reached inside passed) threw
      case isFalse => cases threw

theorem throws_iff (lz4 : Lz4) (junk : Bytes) (r : StdString) :
    Throws lz4 junk r ↔ ∃ cursor, Reaches r.bytes cursor ∧ Breaks r.bytes cursor := by
  constructor
  · rintro ⟨fuel, failure, threw⟩
    exact breaks_of_loop r.fits .start threw
  · rintro ⟨cursor, reached, breaks⟩
    obtain ⟨passes, res, looped⟩ := reached.loop
    refine ⟨1 + passes, incorrectRaw, (looped 1).trans ?_⟩
    simp only [parseDumpBlocksLoop, if_pos breaks.1, breaks.error r.fits]

theorem forward_iff (whole : cursor + 8 ≤ r.length) (fits : r.length < 2 ^ 63)
    (moves : declaredAt r cursor ≠ 2 ^ 64 - 8) :
    cursor < (cursor + 8 + declaredAt r cursor) % 2 ^ 64 ↔
      declaredAt r cursor < 2 ^ 64 - 8 - cursor ∨ 2 ^ 64 - 8 ≤ declaredAt r cursor := by
  have small := declaredAt_lt whole
  omega

-- The bytes behind the cursor bound the passes that are left.
theorem parseDumpBlocksLoop_ends (forward : ∀ cursor, Reaches r cursor → cursor < r.length →
      ∀ str next, deserializeStringBigEndian r cursor = .ok (str, next) → cursor < next)
    (reached : Reaches r cursor) (res : List Bytes) :
    ∃ result, parseDumpBlocksLoop r (r.length - cursor + 1) cursor res = some result := by
  induction left : r.length - cursor using Nat.strong_induction_on generalizing cursor res with
  | _ n ih =>
      by_cases inside : cursor < r.length
      · cases passed : deserializeStringBigEndian r cursor with
        | error failure => exact ⟨.error failure, by simp only [parseDumpBlocksLoop, if_pos inside, passed]⟩
        | ok pass =>
            obtain ⟨str, next⟩ := pass
            have later := forward cursor reached inside str next passed
            obtain ⟨result, ended⟩ :=
              ih (r.length - next) (by omega) (.pass reached inside passed) (res ++ [str]) rfl
            have enough : r.length - next + 1 + (n - (r.length - next) - 1) = n := by omega
            refine ⟨result, ?_⟩
            rw [parseDumpBlocksLoop_pass inside passed, ← enough]
            exact parseDumpBlocksLoop_add ended _
      · exact ⟨.ok res, by simp only [parseDumpBlocksLoop, if_neg inside]⟩

theorem passes_forward_iff (lz4 : Lz4) (junk : Bytes) (r : StdString) :
    ((∀ cursor, Reaches r.bytes cursor → cursor < r.bytes.length →
        ∀ str next, deserializeStringBigEndian r.bytes cursor = .ok (str, next) → cursor < next) ∧
      ∃ fuel result, parseDumpBlocksBinary lz4 junk r.bytes false fuel = some result) ↔
    ∀ cursor, Reaches r.bytes cursor → cursor + 8 ≤ r.bytes.length →
      declaredAt r.bytes cursor < 2 ^ 64 - 8 - cursor ∨ 2 ^ 64 - 8 ≤ declaredAt r.bytes cursor := by
  constructor
  · rintro ⟨forward, -⟩ cursor reached whole
    have inside : cursor < r.bytes.length := by omega
    rcases deserializeStringBigEndian_cases r.fits inside with ⟨short | back, -⟩ | ⟨-, moves, passed⟩
    · omega
    · exact .inr back.ge
    · exact (forward_iff whole r.fits moves).mp (forward cursor reached inside _ _ passed)
  · intro safe
    have forward : ∀ cursor, Reaches r.bytes cursor → cursor < r.bytes.length →
        ∀ str next, deserializeStringBigEndian r.bytes cursor = .ok (str, next) → cursor < next := by
      intro cursor reached inside str next passed
      rcases deserializeStringBigEndian_cases r.fits inside with ⟨-, failed⟩ | ⟨whole, moves, eq⟩
      · cases failed.symm.trans passed
      · cases eq.symm.trans passed
        exact (forward_iff whole r.fits moves).mpr (safe cursor reached whole)
    exact ⟨forward, r.bytes.length + 1, parseDumpBlocksLoop_ends forward .start []⟩

theorem cursor_goes_back :
    let r := bigEndian 8 0 ++ bigEndian 8 (2 ^ 64 - 16)
    Reaches r 8 ∧ deserializeStringBigEndian r 8 = .ok ([], 0) ∧
      ∀ lz4 junk fuel, parseDumpBlocksBinary lz4 junk r false fuel = none := by
  intro r
  have first : deserializeStringBigEndian r 0 = .ok ([], 8) := by decide +kernel
  have second : deserializeStringBigEndian r 8 = .ok ([], 0) := by decide +kernel
  have forever (fuel : Nat) (res : List Bytes) :
      parseDumpBlocksLoop r fuel 0 res = none ∧ parseDumpBlocksLoop r fuel 8 res = none := by
    induction fuel generalizing res with
    | zero => exact ⟨rfl, rfl⟩
    | succ fuel ih =>
        rw [parseDumpBlocksLoop_pass (by decide) first, parseDumpBlocksLoop_pass (by decide) second]
        exact ⟨(ih _).2, (ih _).1⟩
  exact ⟨.pass .start (by decide) first, second, fun _ _ fuel => (forever fuel []).1⟩

theorem parseDumpBlocksLoop_stream {front : Bytes} {ds : List Bytes} {tail : Bytes} (fits : r.length < 2 ^ 63)
    (split : r = front ++ stream 8 ds ++ tail) (fuel : Nat) (res : List Bytes) :
    parseDumpBlocksLoop r (fuel + ds.length) front.length res =
      parseDumpBlocksLoop r fuel (front ++ stream 8 ds).length (res ++ ds) := by
  induction ds generalizing front res with
  | nil => simp
  | cons d ds ih =>
      have rest : r.drop front.length = prefixed 8 d ++ (stream 8 ds ++ tail) := by
        rw [split, stream_cons, List.append_assoc, List.drop_left, List.append_assoc]
      have length : r.length = front.length + (8 + d.length) + (stream 8 ds ++ tail).length := by
        have := congrArg List.length split
        simp only [stream_cons, List.length_append, prefixed_length] at this ⊢
        omega
      have size : declaredAt r front.length = d.length := by
        rw [declaredAt, rest]
        exact declared_prefixed (by omega) _
      have inside : front.length < r.length := by omega
      have slice : (r.drop (front.length + 8)).take d.length = d := by
        rw [← List.drop_drop, rest, prefixed, List.append_assoc, List.drop_left' (bigEndian_length 8 _), List.take_left]
      rcases deserializeStringBigEndian_cases fits inside with ⟨short | back, -⟩ | ⟨-, -, passed⟩
      · omega
      · omega
      · rw [size, slice, Nat.mod_eq_of_lt (by omega)] at passed
        have next : front.length + 8 + d.length = (front ++ prefixed 8 d).length := by
          rw [List.length_append, prefixed_length]
          omega
        rw [next] at passed
        rw [List.length_cons, ← Nat.add_assoc, parseDumpBlocksLoop_pass inside passed,
          ih (by rw [split, stream_cons]; simp), List.append_assoc, List.append_assoc]
        rfl

section
variable {lz4 : Lz4} {junk : Bytes} {r : StdString} {ds ds' front : List Bytes} {tail : Bytes}

theorem Returns.unique (returns : Returns lz4 junk r ds) (again : Returns lz4 junk r ds') : ds = ds' := by
  obtain ⟨fuel, ended⟩ := returns
  obtain ⟨fuel', ended'⟩ := again
  exact Except.ok.inj (parseDumpBlocksLoop_unique ended ended')

theorem Throws.not_returns (throws : Throws lz4 junk r) : ¬Returns lz4 junk r ds := by
  obtain ⟨fuel, failure, threw⟩ := throws
  rintro ⟨fuel', returned⟩
  cases parseDumpBlocksLoop_unique threw returned

theorem returns_stream (whole : r.bytes = stream 8 ds) : Returns lz4 junk r ds := by
  have split : r.bytes = [] ++ stream 8 ds ++ [] := by simpa using whole
  have looped := parseDumpBlocksLoop_stream r.fits split 1 []
  refine ⟨1 + ds.length, looped.trans ?_⟩
  simp [parseDumpBlocksLoop, whole]

theorem throws_of_short_tail (split : r.bytes = stream 8 front ++ tail) (some : tail ≠ []) (short : tail.length < 8) :
    Throws lz4 junk r := by
  have looped := parseDumpBlocksLoop_stream r.fits (show r.bytes = [] ++ stream 8 front ++ tail from split) 1 []
  refine ⟨1 + front.length, incorrectRaw, looped.trans ?_⟩
  have length := congrArg List.length split
  rw [List.length_append] at length
  have positive := List.length_pos_iff.mpr some
  have inside : (stream 8 front).length < r.bytes.length := by omega
  rcases deserializeStringBigEndian_cases r.fits inside with ⟨-, failed⟩ | ⟨whole, -⟩
  · simp only [parseDumpBlocksLoop, List.nil_append, if_pos inside, failed]
  · omega

theorem ne_stream_of_overlong (split : r.bytes = stream 8 front ++ tail) (overlong : Overlong 8 tail)
    (ds : List Bytes) : r.bytes ≠ stream 8 ds := by
  intro whole
  have sized : (stream 8 ds).length < 256 ^ 8 := by
    rw [← whole]
    exact r.fits.trans (by norm_num)
  exact not_overlong_of_stream (by norm_num) sized (whole.symm.trans split) overlong

end

theorem format_accepted_iff (lz4 : Lz4) (junk : Bytes) (r : StdString) :
    ((∀ ds, Returns lz4 junk r ds → r.bytes = ds.flatMap serializeStringBigEndian) ∧
      ((∀ ds : List Bytes, r.bytes ≠ ds.flatMap serializeStringBigEndian) → Throws lz4 junk r)) ↔
    ∀ (ds : List Bytes) (tail : Bytes), r.bytes = ds.flatMap serializeStringBigEndian ++ tail →
      8 ≤ tail.length → tail.length < 8 + declared 8 tail →
        ∃ cursor, Reaches r.bytes cursor ∧ cursor < r.bytes.length ∧
          (r.bytes.length < cursor + 8 ∨ declaredAt r.bytes cursor = 2 ^ 64 - 8) := by
  have throws_iff := throws_iff lz4 junk r
  rw [serializeStringBigEndian_eq]
  obtain ⟨front, tail, split, ends⟩ := exists_stream (show 0 < 8 by norm_num) r.bytes
  rcases ends with short | overlong
  · by_cases empty : tail = []
    · have whole : r.bytes = stream 8 front := by rw [split, empty, List.append_nil]
      constructor
      · intro _ ds tail split' room long
        exact absurd whole (ne_stream_of_overlong split' ⟨room, long⟩ front)
      · intro _
        refine ⟨fun ds returns => ?_, fun other => absurd whole (other front)⟩
        rw [← (returns_stream whole).unique returns]
        exact whole
    · have throws : Throws lz4 junk r := throws_of_short_tail split empty short
      exact ⟨fun _ _ _ _ _ _ => throws_iff.mp throws,
        fun _ => ⟨fun ds returns => absurd returns throws.not_returns, fun _ => throws⟩⟩
  · constructor
    · intro accepts ds tail split' room long
      exact throws_iff.mp (accepts.2 (ne_stream_of_overlong split' ⟨room, long⟩))
    · intro safe
      have throws := throws_iff.mpr (safe front tail split overlong.whole overlong.long)
      exact ⟨fun ds returns => absurd returns throws.not_returns, fun _ => throws⟩

theorem shortened_string_accepted :
    let r : StdString := ⟨bigEndian 8 5 ++ [1], by decide⟩
    (∀ lz4 junk, Returns lz4 junk r [[1]]) ∧ r.bytes ≠ [[1]].flatMap serializeStringBigEndian := by
  refine ⟨fun lz4 junk => ⟨2, ?_⟩, by decide +kernel⟩
  have ended : parseDumpBlocksLoop (bigEndian 8 5 ++ [1]) 2 0 [] = some (.ok [[1]]) := by decide +kernel
  exact ended

end FullnodeClient.Torrent
