import FullnodeClient.Lib.Delimited

/-!
# Searching a list

The first position of a pattern, what an occurrence says about the whole list, and where in a list of
two parts a pattern can be.
-/

namespace FullnodeClient.Lib

variable {α : Type*}

theorem separator_delimited (sep : α) : SelfDelimiting (· ++ [sep]) (sep ∉ ·) := by
  intro u v
  induction u generalizing v with
  | nil =>
      intro _ free r s same
      cases v with
      | nil => exact ⟨rfl, (List.cons.inj same).2⟩
      | cons c v => exact absurd (by simp [(List.cons.inj same).1]) free
  | cons b u ih =>
      intro hu hv r s same
      cases v with
      | nil => exact absurd (by simp [(List.cons.inj same).1]) hu
      | cons c v =>
          obtain ⟨rfl, tails⟩ := List.cons.inj same
          obtain ⟨rfl, rest⟩ := ih v (List.not_mem_of_not_mem_cons hu) (List.not_mem_of_not_mem_cons hv) r s tails
          exact ⟨rfl, rest⟩

theorem infix_of_infix_append {sep : α} {word more front rest : List α} (single : sep ∉ word) (free : sep ∉ front)
    (apart : ¬ word <:+ front) (rooted : rest = [] ∨ rest.head? = some sep)
    (occurs : word ++ sep :: more <:+: front ++ rest) : word ++ sep :: more <:+: rest := by
  obtain ⟨a, b, whole⟩ := occurs
  obtain rfl | ⟨rest, rfl⟩ : rest = [] ∨ ∃ tail, rest = sep :: tail := by
    cases rest with
    | nil => exact .inl rfl
    | cons c tail => exact .inr ⟨tail, by simpa using rooted⟩
  · rw [List.append_nil] at whole
    exact absurd (by rw [← whole]; simp) free
  · by_cases early : sep ∈ a
    · obtain ⟨u, v, rfl, first⟩ := List.eq_append_cons_of_mem early
      obtain ⟨-, tail⟩ := separator_delimited sep u front first free
        (v ++ (word ++ sep :: more) ++ b) rest (by simpa using whole)
      exact ⟨sep :: v, b, by simp [← tail]⟩
    · obtain ⟨same, -⟩ := separator_delimited sep (a ++ word) front (by simp [early, single]) free
        (more ++ b) rest (by simpa using whole)
      exact absurd ⟨a, same⟩ apart

variable [DecidableEq α]

def search (pattern : List α) : List α → Option Nat
  | [] => if pattern.isEmpty then some 0 else none
  | c :: s => if pattern.isPrefixOf (c :: s) then some 0 else (search pattern s).map (· + 1)

theorem search_isSome_iff (pattern s : List α) : (search pattern s).isSome = true ↔ pattern <:+: s := by
  induction s with
  | nil => cases pattern <;> simp [search]
  | cons c s ih =>
      rw [search, List.infix_cons_iff, ← ih, ← List.isPrefixOf_iff_prefix]
      split
      case isTrue here => simp [here]
      case isFalse later => simp [later]

theorem search_eq_none {a : α} {s : List α} (absent : a ∉ s) : search [a] s = none := by
  have nowhere : ¬ (search [a] s).isSome = true := by
    rw [search_isSome_iff]
    exact fun occurs => absent (occurs.subset (by simp))
  simpa using nowhere

theorem search_append {a : α} {s : List α} (absent : a ∉ s) (rest : List α) :
    search [a] (s ++ a :: rest) = some s.length := by
  induction s with
  | nil => simp [search]
  | cons c s ih =>
      have later : a ≠ c := fun same => absent (by simp [same])
      simp [search, later, ih (List.not_mem_of_not_mem_cons absent)]

end FullnodeClient.Lib
