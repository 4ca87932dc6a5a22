import FullnodeClient.Text.Hex
import Mathlib.Logic.Function.Basic

/-!
# Wallet storage

The keys of an address are kept in two files of the wallet directory, and in a map of those that have
been read. A write to a file can fail: the file cannot be opened, or not all bytes arrive in it.
-/

namespace FullnodeClient.Wallet
open FullnodeClient.Lib FullnodeClient.Text

structure CryptKeys where
  pubKey : Bytes
  prvKey : Bytes
deriving DecidableEq

-- Addresses and the path become parts of the names of files, which end at a NUL byte. With a slash in them, two
-- names could be one file.
structure Address where
  bytes : Bytes
  plain : 0 ∉ bytes
  single : 47 ∉ bytes
deriving DecidableEq

structure Dir where
  path : Bytes
  plain : 0 ∉ path

abbrev Files := Bytes → Option Bytes

structure Storage where
  memory : Address → Option CryptKeys
  files : Files

/-- How a write goes: the file cannot be opened, or this many bytes are written. -/
inductive Write
  | refused
  | written (count : Nat)
deriving DecidableEq

def Dir.slash (dir : Dir) : Bytes := if dir.path.getLast? = some 47 then dir.path else dir.path ++ [47]

def Dir.name (dir : Dir) (file : Bytes) : Bytes := cStr (dir.slash ++ file)

def prvFile (address : Bytes) : Bytes := address ++ text ".raw.prv"

def pubFile (address : Bytes) : Bytes := address ++ text ".raw.pub"

def readFromFile (dir : Dir) (files : Files) (file : Bytes) : Option Bytes :=
  if dir.path = [] then none else files (dir.name file)

def writeToFile (dir : Dir) (files : Files) (file data : Bytes) (write : Write) : Bool × Files :=
  if dir.path = [] then (false, files)
  else
    match write with
    | .refused => (false, files)
    | .written count => (true, Function.update files (dir.name file) (some (data.take count)))

def readKeys (dir : Dir) (files : Files) (address : Address) : Option CryptKeys := do
  let prv ← readFromFile dir files (prvFile address.bytes)
  let pub ← readFromFile dir files (pubFile address.bytes)
  return ⟨pub, prv⟩

def peek (dir : Dir) (st : Storage) (address : Address) : Option CryptKeys × Storage :=
  match st.memory address with
  | some keys => (some keys, st)
  | none =>
      match readKeys dir st.files address with
      | some keys => (some keys, { st with memory := Function.update st.memory address (some keys) })
      | none => (none, st)

def store (dir : Dir) (st : Storage) (address : Address) (data : CryptKeys) (prv pub : Write) : Bool × Storage :=
  if (st.memory address).isSome then (false, st)
  else
    match writeToFile dir st.files (prvFile address.bytes) data.prvKey prv with
    | (false, files) => (false, { st with files := files })
    | (true, files) =>
        match writeToFile dir files (pubFile address.bytes) data.pubKey pub with
        | (result, files) => (result, { st with files := files })

inductive Call
  | peek (address : Address)
  | store (address : Address) (data : CryptKeys) (prv pub : Write)
deriving DecidableEq

def step (dir : Dir) (st : Storage) : Call → Storage
  | .peek address => (peek dir st address).2
  | .store address data prv pub => (store dir st address data prv pub).2

def run (dir : Dir) (st : Storage) (calls : List Call) : Storage := calls.foldl (step dir) st

def start (files : Files) : Storage := ⟨fun _ => none, files⟩

def answer (dir : Dir) (st : Storage) (address : Address) : Option CryptKeys := (peek dir st address).1

theorem run_append (dir : Dir) (st : Storage) (before after : List Call) :
    run dir st (before ++ after) = run dir (run dir st before) after :=
  List.foldl_append

theorem run_cons (dir : Dir) (st : Storage) (call : Call) (after : List Call) :
    run dir st (call :: after) = run dir (step dir st call) after := rfl

variable {dir : Dir} {st : Storage} {files : Files} {address other : Address} {data keys : CryptKeys}

theorem answer_eq (dir : Dir) (st : Storage) (address : Address) :
    answer dir st address = (st.memory address).or (readKeys dir st.files address) := by
  unfold answer peek
  cases st.memory address with
  | some keys => rfl
  | none => cases readKeys dir st.files address <;> rfl

theorem answer_peek (dir : Dir) (st : Storage) (address other : Address) :
    answer dir (peek dir st address).2 other = answer dir st other := by
  unfold peek
  split
  case h_1 => rfl
  case h_2 fresh =>
    split
    case h_1 keys found =>
      by_cases here : other = address
      · subst here
        simp [answer_eq, fresh, found]
      · simp [answer_eq, Function.update_of_ne here]
    case h_2 => rfl

/-! ## Files -/

theorem Dir.name_eq (dir : Dir) (address : Address) {ending : Bytes} (plain : 0 ∉ ending) :
    dir.name (address.bytes ++ ending) = dir.slash ++ address.bytes ++ ending := by
  have path : 0 ∉ dir.slash := by
    unfold Dir.slash
    split
    · exact dir.plain
    · simp [dir.plain]
  rw [Dir.name, cStr, ← List.append_assoc]
  refine List.takeWhile_eq_self_iff.mpr fun c member => ?_
  have : c ≠ 0 := by
    rintro rfl
    simp [path, address.plain, plain] at member
  simpa using this

theorem name_prvFile (dir : Dir) (address : Address) :
    dir.name (prvFile address.bytes) = dir.slash ++ address.bytes ++ text ".raw.prv" :=
  dir.name_eq address (by decide)

theorem name_pubFile (dir : Dir) (address : Address) :
    dir.name (pubFile address.bytes) = dir.slash ++ address.bytes ++ text ".raw.pub" :=
  dir.name_eq address (by decide)

theorem Address.eq_of_append {slash ending : Bytes}
    (same : slash ++ address.bytes ++ ending = slash ++ other.bytes ++ ending) :
    address = other := by
  have bytes := List.append_cancel_left (List.append_cancel_right same)
  cases address
  cases other
  cases bytes
  rfl

theorem prvFile_ne_pubFile (dir : Dir) (address other : Address) :
    dir.name (prvFile address.bytes) ≠ dir.name (pubFile other.bytes) := by
  rw [name_prvFile, name_pubFile]
  intro same
  have lengths : (text ".raw.prv").length = (text ".raw.pub").length := by decide
  have different : text ".raw.prv" ≠ text ".raw.pub" := by decide
  exact different (List.append_inj' same lengths).2

theorem readKeys_eq (enabled : dir.path ≠ []) (files : Files) (address : Address) :
    readKeys dir files address = (files (dir.name (prvFile address.bytes))).bind fun prv =>
      (files (dir.name (pubFile address.bytes))).map fun pub => ⟨pub, prv⟩ := by
  simp only [readKeys, readFromFile, enabled, if_false]
  cases files (dir.name (prvFile address.bytes)) with
  | none => rfl
  | some prv => cases files (dir.name (pubFile address.bytes)) <;> rfl

theorem readKeys_write_prv (enabled : dir.path ≠ []) (files : Files) (address other : Address) (bytes : Bytes) :
    readKeys dir (Function.update files (dir.name (prvFile address.bytes)) (some bytes)) other =
      if other = address then (files (dir.name (pubFile address.bytes))).map fun pub => ⟨pub, bytes⟩
      else readKeys dir files other := by
  rw [readKeys_eq enabled, Function.update_of_ne (prvFile_ne_pubFile dir address other).symm]
  split_ifs with here
  · rw [here, Function.update_self]
    rfl
  · have elsewhere : dir.name (prvFile other.bytes) ≠ dir.name (prvFile address.bytes) := by
      rw [name_prvFile, name_prvFile]
      exact fun same => here (Address.eq_of_append same)
    rw [Function.update_of_ne elsewhere, readKeys_eq enabled]

theorem readKeys_write_pub (enabled : dir.path ≠ []) (files : Files) (address other : Address) (bytes : Bytes) :
    readKeys dir (Function.update files (dir.name (pubFile address.bytes)) (some bytes)) other =
      if other = address then (files (dir.name (prvFile address.bytes))).map fun prv => ⟨bytes, prv⟩
      else readKeys dir files other := by
  rw [readKeys_eq enabled, Function.update_of_ne (prvFile_ne_pubFile dir other address)]
  split_ifs with here
  · rw [here, Function.update_self]
    cases files (dir.name (prvFile address.bytes)) <;> rfl
  · have elsewhere : dir.name (pubFile other.bytes) ≠ dir.name (pubFile address.bytes) := by
      rw [name_pubFile, name_pubFile]
      exact fun same => here (Address.eq_of_append same)
    rw [Function.update_of_ne elsewhere, readKeys_eq enabled]

theorem store_disabled (disabled : dir.path = []) (st : Storage) (address : Address) (data : CryptKeys)
    (prv pub : Write) :
    store dir st address data prv pub = (false, st) := by
  simp [store, writeToFile, disabled]

theorem store_held (held : st.memory address = some keys) (data : CryptKeys) (prv pub : Write) :
    store dir st address data prv pub = (false, st) := by
  simp [store, held]

section
variable (enabled : dir.path ≠ []) (fresh : st.memory address = none)
include enabled fresh

theorem store_refused (data : CryptKeys) (pub : Write) : store dir st address data .refused pub = (false, st) := by
  simp [store, writeToFile, enabled, fresh]

theorem store_half (data : CryptKeys) (count : Nat) :
    store dir st address data (.written count) .refused = (false, { st with
      files := Function.update st.files (dir.name (prvFile address.bytes)) (some (data.prvKey.take count)) }) := by
  simp [store, writeToFile, enabled, fresh]

theorem store_whole (data : CryptKeys) (count count' : Nat) :
    store dir st address data (.written count) (.written count') = (true, { st with
      files := Function.update
        (Function.update st.files (dir.name (prvFile address.bytes)) (some (data.prvKey.take count)))
        (dir.name (pubFile address.bytes)) (some (data.pubKey.take count')) }) := by
  simp [store, writeToFile, enabled, fresh]

end

inductive Safe (dir : Dir) (st : Storage) (address : Address) (data : CryptKeys) : Write → Write → Prop
  | disabled (prv pub : Write) : dir.path = [] → Safe dir st address data prv pub
  | held (prv pub : Write) (keys : CryptKeys) : st.memory address = some keys → Safe dir st address data prv pub
  | refused (pub : Write) : Safe dir st address data .refused pub
  | half (count : Nat) : st.files (dir.name (pubFile address.bytes)) = none ∨
      st.files (dir.name (prvFile address.bytes)) = some (data.prvKey.take count) →
      Safe dir st address data (.written count) .refused
  | whole (count count' : Nat) : data.prvKey.length ≤ count → data.pubKey.length ≤ count' →
      st.files (dir.name (prvFile address.bytes)) = none ∨ st.files (dir.name (pubFile address.bytes)) = none →
      Safe dir st address data (.written count) (.written count')

def Kept (dir : Dir) (st : Storage) (address : Address) (data : CryptKeys) (prv pub : Write) : Prop :=
  ((store dir st address data prv pub).1 = true →
    answer dir st address = none ∧ answer dir (store dir st address data prv pub).2 address = some data) ∧
  ((store dir st address data prv pub).1 = false →
    ∀ other, answer dir (store dir st address data prv pub).2 other = answer dir st other)

section
variable (enabled : dir.path ≠ []) (fresh : st.memory address = none)
include enabled fresh

theorem kept_half_iff (data : CryptKeys) (count : Nat) :
    Kept dir st address data (.written count) .refused ↔ st.files (dir.name (pubFile address.bytes)) = none ∨
      st.files (dir.name (prvFile address.bytes)) = some (data.prvKey.take count) := by
  have kept : Kept dir st address data (.written count) .refused ↔
      (st.files (dir.name (pubFile address.bytes))).map (fun pub => (⟨pub, data.prvKey.take count⟩ : CryptKeys)) =
        readKeys dir st.files address := by
    simp only [Kept, store_half enabled fresh, Bool.false_eq_true, false_imp_iff, true_and, forall_const, answer_eq]
    constructor
    · intro same
      simpa [fresh, readKeys_write_prv enabled] using same address
    · intro same other
      rw [readKeys_write_prv enabled]
      split_ifs with here
      · rw [here, same]
      · rfl
  rw [kept, readKeys_eq enabled]
  cases st.files (dir.name (pubFile address.bytes)) with
  | none => simp
  | some pub =>
      cases st.files (dir.name (prvFile address.bytes)) with
      | none => simp
      | some prv => simp [eq_comm]

theorem kept_whole_iff (data : CryptKeys) (count count' : Nat) :
    Kept dir st address data (.written count) (.written count') ↔
      (data.prvKey.length ≤ count ∧ data.pubKey.length ≤ count') ∧
        (st.files (dir.name (prvFile address.bytes)) = none ∨ st.files (dir.name (pubFile address.bytes)) = none) := by
  have before : answer dir st address = none ↔
      st.files (dir.name (prvFile address.bytes)) = none ∨ st.files (dir.name (pubFile address.bytes)) = none := by
    rw [answer_eq, fresh, Option.none_or, readKeys_eq enabled]
    cases st.files (dir.name (prvFile address.bytes)) with
    | none => simp
    | some prv => simp
  have after : answer dir (store dir st address data (.written count) (.written count')).2 address =
      some ⟨data.pubKey.take count', data.prvKey.take count⟩ := by
    rw [store_whole enabled fresh, answer_eq]
    simp [fresh, readKeys_write_pub enabled]
  rw [Kept, after, before, store_whole enabled fresh]
  have complete : some (⟨data.pubKey.take count', data.prvKey.take count⟩ : CryptKeys) = some data ↔
      data.prvKey.length ≤ count ∧ data.pubKey.length ≤ count' := by
    cases data
    simp [and_comm]
  rw [complete]
  simp [and_comm]

end

theorem kept_iff (dir : Dir) (st : Storage) (address : Address) (data : CryptKeys) (prv pub : Write) :
    Kept dir st address data prv pub ↔ Safe dir st address data prv pub := by
  by_cases enabled : dir.path = []
  · refine iff_of_true ?_ (.disabled prv pub enabled)
    simp [Kept, store_disabled enabled]
  cases fresh : st.memory address with
  | some keys =>
      refine iff_of_true ?_ (.held prv pub keys fresh)
      simp [Kept, store_held fresh]
  | none =>
      cases prv with
      | refused =>
          refine iff_of_true ?_ (.refused pub)
          simp [Kept, store_refused enabled fresh]
      | written count =>
          cases pub with
          | refused =>
              rw [kept_half_iff enabled fresh]
              refine ⟨.half count, fun safe => ?_⟩
              cases safe with
              | disabled _ _ disabled => exact absurd disabled enabled
              | held _ _ keys held => cases fresh.symm.trans held
              | half _ kept => exact kept
          | written count' =>
              rw [kept_whole_iff enabled fresh]
              refine ⟨fun ⟨⟨prv, pub⟩, absent⟩ => .whole count count' prv pub absent, fun safe => ?_⟩
              cases safe with
              | disabled _ _ disabled => exact absurd disabled enabled
              | held _ _ keys held => cases fresh.symm.trans held
              | whole _ _ prv pub absent => exact ⟨⟨prv, pub⟩, absent⟩

theorem answer_store_other (elsewhere : other ≠ address) (data : CryptKeys) (prv pub : Write) :
    answer dir (store dir st address data prv pub).2 other = answer dir st other := by
  by_cases enabled : dir.path = []
  · rw [store_disabled enabled]
  cases fresh : st.memory address with
  | some keys => rw [store_held fresh]
  | none =>
      cases prv with
      | refused => rw [store_refused enabled fresh]
      | written count =>
          cases pub with
          | refused =>
              rw [store_half enabled fresh, answer_eq, answer_eq, readKeys_write_prv enabled, if_neg elsewhere]
          | written count' =>
              rw [store_whole enabled fresh, answer_eq, answer_eq, readKeys_write_pub enabled, if_neg elsewhere,
                readKeys_write_prv enabled, if_neg elsewhere]

def AllSafe (dir : Dir) (st : Storage) (calls : List Call) : Prop :=
  ∀ before address data prv pub after, calls = before ++ .store address data prv pub :: after →
    Safe dir (run dir st before) address data prv pub

theorem AllSafe.left {before after : List Call} (safe : AllSafe dir st (before ++ after)) :
    AllSafe dir st before := by
  intro earlier address data prv pub rest split
  exact safe earlier address data prv pub (rest ++ after) (by simp [split])

theorem AllSafe.tail {call : Call} {after : List Call} (safe : AllSafe dir st (call :: after)) :
    AllSafe dir (step dir st call) after :=
  fun earlier address data prv pub rest split => safe (call :: earlier) address data prv pub rest (by rw [split]; rfl)

theorem AllSafe.right {before after : List Call} (safe : AllSafe dir st (before ++ after)) :
    AllSafe dir (run dir st before) after := by
  induction before generalizing st with
  | nil => exact safe
  | cons call before ih => exact ih safe.tail

theorem AllSafe.answer_run {later : List Call} (safe : AllSafe dir st later)
    (found : answer dir st address = some data) :
    answer dir (run dir st later) address = some data := by
  induction later generalizing st with
  | nil => exact found
  | cons call later ih =>
      rw [run_cons]
      refine ih safe.tail ?_
      cases call with
      | peek other => exact (answer_peek dir st other address).trans found
      | store other data' prv pub =>
          have kept := (kept_iff dir st other data' prv pub).mpr (safe [] other data' prv pub later rfl)
          by_cases here : address = other
          · subst here
            cases result : (store dir st address data' prv pub).1 with
            | true => cases found.symm.trans (kept.1 result).1
            | false => exact (kept.2 result address).trans found
          · exact (answer_store_other here data' prv pub).trans found

theorem keys_kept_iff (dir : Dir) (files : Files) (calls : List Call) :
    (∀ before address data prv pub after, calls = before ++ .store address data prv pub :: after →
      ((store dir (run dir (start files) before) address data prv pub).1 = true →
        answer dir (run dir (start files) before) address = none ∧
        ∀ later, later <+: after → answer dir (run dir (start files)
          (before ++ .store address data prv pub :: later)) address = some data) ∧
      ((store dir (run dir (start files) before) address data prv pub).1 = false → ∀ other,
        answer dir (run dir (start files) (before ++ [.store address data prv pub])) other =
          answer dir (run dir (start files) before) other)) ↔
    AllSafe dir (start files) calls := by
  constructor
  · intro kept before address data prv pub after split
    obtain ⟨stored, refused⟩ := kept before address data prv pub after split
    refine (kept_iff dir _ address data prv pub).mp ⟨fun result => ?_, fun result => ?_⟩
    · obtain ⟨fresh, found⟩ := stored result
      have now := found [] List.nil_prefix
      rw [run_append] at now
      exact ⟨fresh, now⟩
    · rw [run_append] at refused
      exact refused result
  · intro safe before address data prv pub after split
    subst split
    have kept := (kept_iff dir _ address data prv pub).mpr (safe before address data prv pub after rfl)
    refine ⟨fun result => ⟨(kept.1 result).1, ?_⟩, fun result => ?_⟩
    · rintro later ⟨rest, rfl⟩
      have others : AllSafe dir (run dir (start files) before) (.store address data prv pub :: later) :=
        AllSafe.left safe.right
      rw [run_append, run_cons]
      exact others.tail.answer_run (kept.1 result).2
    · rw [run_append]
      exact kept.2 result

theorem full_disk_loses_key :
    let dir : Dir := ⟨text "wallet", by decide⟩
    let address : Address := ⟨text "0x00a1", by decide, by decide⟩
    let keys : CryptKeys := ⟨text "04b2", text "30c3"⟩
    let call : Call := .store address keys (.written 0) (.written 4)
    (store dir (start fun _ => none) address keys (.written 0) (.written 4)).1 = true ∧
      answer dir (run dir (start fun _ => none) [call]) address = some ⟨text "04b2", []⟩ := by
  decide

end FullnodeClient.Wallet
