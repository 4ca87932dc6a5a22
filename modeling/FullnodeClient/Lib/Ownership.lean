import Mathlib.Tactic

/-!
# Exclusive ownership

Owners of handles that the system hands out and takes back: what is owned is open, and has one owner.
-/

namespace FullnodeClient.Lib

variable {ω η : Type} {owns owns' : ω → η → Prop} {opened opened' : η → Prop}

structure Exclusive (owns : ω → η → Prop) (opened : η → Prop) : Prop where
  live : ∀ owner handle, owns owner handle → opened handle
  only : ∀ owner other handle, owns owner handle → owns other handle → owner = other

namespace Exclusive

theorem close (exclusive : Exclusive owns opened) (leaves : ω → η → Prop)
    (fewer : ∀ owner handle, owns' owner handle → owns owner handle ∧ ¬leaves owner handle)
    (kept : ∀ handle, opened handle → (∀ owner, leaves owner handle → ¬owns owner handle) → opened' handle) :
    Exclusive owns' opened' where
  live owner handle owned := by
    obtain ⟨before, stays⟩ := fewer owner handle owned
    refine kept handle (exclusive.live owner handle before) fun other gone owned' => ?_
    rw [exclusive.only owner other handle before owned'] at stays
    exact stays gone
  only owner other handle owned owned' :=
    exclusive.only owner other handle (fewer owner handle owned).1 (fewer other handle owned').1

theorem keep (exclusive : Exclusive owns opened) (fewer : ∀ owner handle, owns' owner handle → owns owner handle) :
    Exclusive owns' opened :=
  exclusive.close (fun _ _ => False) (fun owner handle owned => ⟨fewer owner handle owned, id⟩) fun _ isOpen _ => isOpen

theorem give {handle₀ : η} (exclusive : Exclusive owns opened) (owner₀ : ω) (free : ∀ owner, ¬owns owner handle₀)
    (isOpen : opened' handle₀) (kept : ∀ handle, opened handle → opened' handle)
    (more : ∀ owner handle, owns' owner handle → owns owner handle ∨ owner = owner₀ ∧ handle = handle₀) :
    Exclusive owns' opened' where
  live owner handle owned := by
    rcases more owner handle owned with before | ⟨-, rfl⟩
    · exact kept handle (exclusive.live owner handle before)
    · exact isOpen
  only owner other handle owned owned' := by
    rcases more owner handle owned with before | ⟨rfl, rfl⟩
    · rcases more other handle owned' with before' | ⟨rfl, rfl⟩
      · exact exclusive.only owner other handle before before'
      · exact absurd before (free owner)
    · rcases more other handle owned' with before' | ⟨rfl, -⟩
      · exact absurd before' (free other)
      · rfl

end Exclusive

end FullnodeClient.Lib
