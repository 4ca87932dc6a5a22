import Mathlib.Tactic

/-!
# Self-delimiting codes

A code whose words can be followed by anything and still be read back: no word is a prefix of
another word followed by a tail, so a sequence of words parses in one way only.
-/

namespace FullnodeClient.Lib

variable {α γ : Type*}

/-- Whatever follows, the first word and the rest are determined. -/
def SelfDelimiting (code : α → List γ) (domain : α → Prop) : Prop :=
  ∀ a b, domain a → domain b → ∀ r s, code a ++ r = code b ++ s → a = b ∧ r = s

theorem SelfDelimiting.of_length {code : α → List γ} {domain : α → Prop} {width : Nat}
    (fixed : ∀ a, domain a → (code a).length = width)
    (injective : ∀ a b, domain a → domain b → code a = code b → a = b) :
    SelfDelimiting code domain := by
  intro a b ha hb r s same
  obtain ⟨words, tails⟩ := List.append_inj same ((fixed a ha).trans (fixed b hb).symm)
  exact ⟨injective a b ha hb words, tails⟩

end FullnodeClient.Lib
