import FullnodeClient.Lib.Positional

/-!
# JSON text

A recogniser of JSON that reads one byte at a time, with a stack of the containers that wait for a
value. Strings are kept as they stand between the quotes and numbers as their tokens.
-/

namespace FullnodeClient.Lib.JsonText

inductive Tree
  | null
  | bool (b : Bool)
  | number (token : Bytes)
  | string (raw : Bytes)
  | array (items : List Tree)
  | object (members : List (Bytes × Tree))

def Tree.get (name : Bytes) : Tree → Option Tree
  | .object members => (members.find? (·.1 = name)).map Prod.snd
  | _ => none

inductive Frame
  | array (items : List Tree)
  | object (members : List (Bytes × Tree)) (key : Bytes)

inductive NumberPart
  | sign
  | zero
  | digits
  | point
  | fraction
  | exponent
  | exponentSign
  | exponentDigits

inductive Escape
  | none
  | backslash
  | hex (left : Nat)

inductive Mode
  | value
  | firstItem
  | item (items : List Tree)
  | firstKey
  | nextKey (members : List (Bytes × Tree))
  | key (members : List (Bytes × Tree)) (raw : Bytes) (escape : Escape)
  | colon (members : List (Bytes × Tree)) (key : Bytes)
  | member (members : List (Bytes × Tree))
  | string (raw : Bytes) (escape : Escape)
  | literal (rest : Bytes) (value : Tree)
  | number (token : Bytes) (part : NumberPart)
  | done (tree : Tree)

structure State where
  mode : Mode
  stack : List Frame

def start : State := ⟨.value, []⟩

def isSpace (c : UInt8) : Bool := c = 32 || c = 9 || c = 10 || c = 13

def isDigit (c : UInt8) : Bool := 48 ≤ c && c ≤ 57

def isHexDigit (c : UInt8) : Bool := isDigit c || (65 ≤ c && c ≤ 70) || (97 ≤ c && c ≤ 102)

def close : List Frame → Tree → State
  | [], tree => ⟨.done tree, []⟩
  | .array items :: stack, tree => ⟨.item (items ++ [tree]), stack⟩
  | .object members key :: stack, tree => ⟨.member (members ++ [(key, tree)]), stack⟩

def enter (stack : List Frame) (c : UInt8) : Option State :=
  if c = 34 then some ⟨.string [] .none, stack⟩
  else if c = 91 then some ⟨.firstItem, stack⟩
  else if c = 123 then some ⟨.firstKey, stack⟩
  else if c = 45 then some ⟨.number [c] .sign, stack⟩
  else if c = 48 then some ⟨.number [c] .zero, stack⟩
  else if isDigit c then some ⟨.number [c] .digits, stack⟩
  else if c = 116 then some ⟨.literal (text "rue") (.bool true), stack⟩
  else if c = 102 then some ⟨.literal (text "alse") (.bool false), stack⟩
  else if c = 110 then some ⟨.literal (text "ull") .null, stack⟩
  else none

def next (s : State) (c : UInt8) : Option State :=
  if isSpace c then some s
  else
    match s.mode with
    | .item items =>
      if c = 44 then some ⟨.value, .array items :: s.stack⟩
      else if c = 93 then some (close s.stack (.array items))
      else none
    | .member members =>
      if c = 44 then some ⟨.nextKey members, s.stack⟩
      else if c = 125 then some (close s.stack (.object members))
      else none
    | _ => none

def stringByte (escape : Escape) (c : UInt8) : Option (Option Escape) :=
  match escape with
  | .none => if c = 34 then some none else if c = 92 then some (some .backslash)
    else if c < 32 then none else some (some .none)
  | .backslash =>
    if c = 117 then some (some (.hex 4))
    else if c ∈ text "\"\\/bfnrt" then some (some .none)
    else none
  | .hex left => if isHexDigit c then some (some (if left ≤ 1 then .none else .hex (left - 1))) else none

def NumberPart.byte (part : NumberPart) (c : UInt8) : Option NumberPart :=
  match part with
  | .sign => if c = 48 then some .zero else if isDigit c then some .digits else none
  | .zero => if c = 46 then some .point else if c = 101 ∨ c = 69 then some .exponent else none
  | .digits =>
    if isDigit c then some .digits else if c = 46 then some .point
    else if c = 101 ∨ c = 69 then some .exponent else none
  | .point => if isDigit c then some .fraction else none
  | .fraction => if isDigit c then some .fraction else if c = 101 ∨ c = 69 then some .exponent else none
  | .exponent => if isDigit c then some .exponentDigits else if c = 43 ∨ c = 45 then some .exponentSign else none
  | .exponentSign => if isDigit c then some .exponentDigits else none
  | .exponentDigits => if isDigit c then some .exponentDigits else none

def NumberPart.complete : NumberPart → Bool
  | .zero | .digits | .fraction | .exponentDigits => true
  | _ => false

def step (s : State) (c : UInt8) : Option State :=
  match s.mode with
  | .value => if isSpace c then some s else enter s.stack c
  | .firstItem =>
    if isSpace c then some s
    else if c = 93 then some (close s.stack (.array []))
    else enter (.array [] :: s.stack) c
  | .firstKey =>
    if isSpace c then some s
    else if c = 125 then some (close s.stack (.object []))
    else if c = 34 then some ⟨.key [] [] .none, s.stack⟩
    else none
  | .nextKey members =>
    if isSpace c then some s
    else if c = 34 then some ⟨.key members [] .none, s.stack⟩
    else none
  | .key members raw escape =>
    (stringByte escape c).map fun
      | none => ⟨.colon members raw, s.stack⟩
      | some escape => ⟨.key members (raw ++ [c]) escape, s.stack⟩
  | .colon members key =>
    if isSpace c then some s
    else if c = 58 then some ⟨.value, .object members key :: s.stack⟩
    else none
  | .string raw escape =>
    (stringByte escape c).map fun
      | none => close s.stack (.string raw)
      | some escape => ⟨.string (raw ++ [c]) escape, s.stack⟩
  | .literal rest tree =>
    match rest with
    | [] => none
    | [last] => if c = last then some (close s.stack tree) else none
    | expected :: rest => if c = expected then some ⟨.literal rest tree, s.stack⟩ else none
  | .number token part =>
    match part.byte c with
    | some part => some ⟨.number (token ++ [c]) part, s.stack⟩
    | none => if part.complete then next (close s.stack (.number token)) c else none
  | .item _ | .member _ | .done _ => next s c

def run (s : State) (bytes : Bytes) : Option State := bytes.foldlM step s

def State.result (s : State) : Option Tree :=
  match s.mode, s.stack with
  | .done tree, _ => some tree
  | .number token part, [] => if part.complete then some (.number token) else none
  | _, _ => none

def parse (bytes : Bytes) : Option Tree := (run start bytes).bind State.result

/-! ## Runs -/

theorem run_append (s : State) (a b : Bytes) : run s (a ++ b) = (run s a).bind fun t => run t b :=
  List.foldlM_append

theorem run_cons (s : State) (c : UInt8) (bytes : Bytes) :
    run s (c :: bytes) = (step s c).bind fun t => run t bytes :=
  List.foldlM_cons

@[simp] theorem run_nil (s : State) : run s [] = some s := rfl

def IsPlain (c : UInt8) : Prop := 32 ≤ c ∧ c ≠ 34 ∧ c ≠ 92

instance (c : UInt8) : Decidable (IsPlain c) := inferInstanceAs (Decidable (_ ∧ _))

def quote (raw : Bytes) : Bytes := 34 :: raw ++ [34]

theorem stringByte_plain {c : UInt8} (plain : IsPlain c) : stringByte .none c = some (some .none) := by
  obtain ⟨low, quote, slash⟩ := plain
  simp [stringByte, quote, slash, UInt8.not_lt.mpr low]

theorem run_string {raw : Bytes} (plain : ∀ c ∈ raw, IsPlain c) (before : Bytes) (stack : List Frame) :
    run ⟨.string before .none, stack⟩ (raw ++ [34]) = some (close stack (.string (before ++ raw))) := by
  induction raw generalizing before with
  | nil => simp [run_cons, step, stringByte]
  | cons c raw ih =>
      obtain ⟨here, rest⟩ := List.forall_mem_cons.mp plain
      have stepped : step ⟨.string before .none, stack⟩ c = some ⟨.string (before ++ [c]) .none, stack⟩ := by
        simp [step, stringByte_plain here]
      rw [List.cons_append, run_cons, stepped, Option.bind_some, ih rest, List.append_assoc, List.singleton_append]

theorem run_quote {raw : Bytes} (plain : ∀ c ∈ raw, IsPlain c) (stack : List Frame) :
    run ⟨.value, stack⟩ (quote raw) = some (close stack (.string raw)) := by
  have opened : step ⟨.value, stack⟩ 34 = some ⟨.string [] .none, stack⟩ := by
    simp [step, enter, isSpace]
  rw [quote, List.cons_append, run_cons, opened, Option.bind_some, run_string plain, List.nil_append]

theorem run_key {raw : Bytes} (plain : ∀ c ∈ raw, IsPlain c) (members : List (Bytes × Tree)) (before : Bytes)
    (stack : List Frame) :
    run ⟨.key members before .none, stack⟩ (raw ++ [34]) = some ⟨.colon members (before ++ raw), stack⟩ := by
  induction raw generalizing before with
  | nil => simp [run_cons, step, stringByte]
  | cons c raw ih =>
      obtain ⟨here, rest⟩ := List.forall_mem_cons.mp plain
      have stepped : step ⟨.key members before .none, stack⟩ c =
          some ⟨.key members (before ++ [c]) .none, stack⟩ := by
        simp [step, stringByte_plain here]
      rw [List.cons_append, run_cons, stepped, Option.bind_some, ih rest, List.append_assoc, List.singleton_append]

theorem run_firstItem {raw : Bytes} (plain : ∀ c ∈ raw, IsPlain c) (stack : List Frame) :
    run ⟨.firstItem, stack⟩ (quote raw) = some ⟨.item [.string raw], stack⟩ := by
  have opened : step ⟨.firstItem, stack⟩ 34 = some ⟨.string [] .none, .array [] :: stack⟩ := by
    simp [step, enter, isSpace]
  rw [quote, List.cons_append, run_cons, opened, Option.bind_some, run_string plain, close]
  rfl

theorem run_items {raws : List Bytes} (plain : ∀ raw ∈ raws, ∀ c ∈ raw, IsPlain c) (items : List Tree)
    (stack : List Frame) :
    run ⟨.item items, stack⟩ (raws.flatMap fun raw => 44 :: quote raw) =
      some ⟨.item (items ++ raws.map .string), stack⟩ := by
  induction raws generalizing items with
  | nil => simp
  | cons raw raws ih =>
      obtain ⟨here, rest⟩ := List.forall_mem_cons.mp plain
      have separated : step ⟨.item items, stack⟩ 44 = some ⟨.value, .array items :: stack⟩ := by
        simp [step, next, isSpace]
      rw [List.flatMap_cons, List.cons_append, run_cons, separated, Option.bind_some, run_append, run_quote here,
        Option.bind_some, close, ih rest, List.map_cons, List.append_assoc, List.singleton_append]

theorem run_firstItem_comma (stack : List Frame) (bytes : Bytes) : run ⟨.firstItem, stack⟩ (44 :: bytes) = none := by
  rw [run_cons]
  rfl

theorem run_item_quote (items : List Tree) (stack : List Frame) (bytes : Bytes) :
    run ⟨.item items, stack⟩ (34 :: bytes) = none := by
  rw [run_cons]
  rfl

def array : List Bytes → Bytes
  | [] => [91, 93]
  | raw :: raws => 91 :: (quote raw ++ (raws.flatMap (fun raw => 44 :: quote raw) ++ [93]))

theorem parse_array {raws : List Bytes} (plain : ∀ raw ∈ raws, ∀ c ∈ raw, IsPlain c) :
    parse (array raws) = some (.array (raws.map .string)) := by
  cases raws with
  | nil => rfl
  | cons raw raws =>
      obtain ⟨here, rest⟩ := List.forall_mem_cons.mp plain
      have opened : step start 91 = some ⟨.firstItem, []⟩ := rfl
      rw [parse, array, run_cons, opened, Option.bind_some, run_append,
        run_firstItem here, Option.bind_some, run_append,
        run_items rest]
      rfl

def field (member : Bytes × Bytes) : Bytes := 34 :: (member.1 ++ [34] ++ (58 :: quote member.2))

def IsPlainField (member : Bytes × Bytes) : Prop := (∀ c ∈ member.1, IsPlain c) ∧ ∀ c ∈ member.2, IsPlain c

instance (member : Bytes × Bytes) : Decidable (IsPlainField member) := inferInstanceAs (Decidable (_ ∧ _))

theorem run_field {member : Bytes × Bytes} (plain : IsPlainField member) {members : List (Bytes × Tree)} {s : State}
    {stack : List Frame} (opened : step s 34 = some ⟨.key members [] .none, stack⟩) :
    run s (field member) = some ⟨.member (members ++ [(member.1, .string member.2)]), stack⟩ := by
  have named : step ⟨.colon members member.1, stack⟩ 58 = some ⟨.value, .object members member.1 :: stack⟩ := by
    simp [step, isSpace]
  rw [field, run_cons, opened, Option.bind_some, run_append, run_key plain.1, Option.bind_some, List.nil_append, run_cons,
    named, Option.bind_some, run_quote plain.2, close]

theorem run_fields {rest : List (Bytes × Bytes)} (plain : ∀ member ∈ rest, IsPlainField member)
    (members : List (Bytes × Tree)) (stack : List Frame) :
    run ⟨.member members, stack⟩ (rest.flatMap fun member => 44 :: field member) =
      some ⟨.member (members ++ rest.map fun member => (member.1, .string member.2)), stack⟩ := by
  induction rest generalizing members with
  | nil => simp
  | cons member rest ih =>
      obtain ⟨here, later⟩ := List.forall_mem_cons.mp plain
      have separated : step ⟨.member members, stack⟩ 44 = some ⟨.nextKey members, stack⟩ := by
        simp [step, next, isSpace]
      have opened : step ⟨.nextKey members, stack⟩ 34 = some ⟨.key members [] .none, stack⟩ := by
        simp [step, isSpace]
      rw [List.flatMap_cons, List.cons_append, run_cons, separated, Option.bind_some, run_append, run_field here opened,
        Option.bind_some, ih later, List.map_cons, List.append_assoc, List.singleton_append]

def object : List (Bytes × Bytes) → Bytes
  | [] => [123, 125]
  | member :: rest => 123 :: (field member ++ (rest.flatMap (fun member => 44 :: field member) ++ [125]))

theorem parse_object {members : List (Bytes × Bytes)} (plain : ∀ member ∈ members, IsPlainField member) :
    parse (object members) = some (.object (members.map fun member => (member.1, .string member.2))) := by
  cases members with
  | nil => rfl
  | cons member rest =>
      obtain ⟨here, later⟩ := List.forall_mem_cons.mp plain
      have opened : step start 123 = some ⟨.firstKey, []⟩ := rfl
      rw [parse, object, run_cons, opened, Option.bind_some, run_append, run_field here rfl, Option.bind_some, run_append,
        run_fields later]
      rfl

end FullnodeClient.Lib.JsonText
