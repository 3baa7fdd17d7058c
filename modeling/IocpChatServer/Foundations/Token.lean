import Mathlib.Logic.Basic

namespace IocpChatServer.Foundations
variable {Holder : Type _}

-- A token: at most one holder has it, and none while it lies elsewhere.
structure Exclusive (holds : Holder → Prop) (elsewhere : Prop) : Prop where
  one : ∀ t u, holds t → holds u → t = u
  alone : ∀ t, holds t → ¬ elsewhere

namespace Exclusive
variable {holds after : Holder → Prop} {elsewhere away : Prop} {t : Holder}

theorem moved (token : Exclusive holds elsewhere) (others : ∀ u, u ≠ t → after u → holds u)
    (takes : after t → (holds t ∨ elsewhere) ∧ ¬ away) (gives : away → holds t ∨ elsewhere) : Exclusive after away where
  one u v one two := by
    by_cases mine : u = t
    · subst mine
      by_cases same : v = u
      · exact same.symm
      · have other := others v same two
        rcases (takes one).1 with had | lay
        · exact token.one _ _ had other
        · exact absurd lay (token.alone _ other)
    · have other := others u mine one
      by_cases mineToo : v = t
      · subst mineToo
        rcases (takes two).1 with had | lay
        · exact token.one _ _ other had
        · exact absurd lay (token.alone _ other)
      · exact token.one _ _ other (others v mineToo two)
  alone u held lies := by
    by_cases mine : u = t
    · subst mine
      exact (takes held).2 lies
    · have other := others u mine held
      rcases gives lies with had | lay
      · exact mine (token.one _ _ other had)
      · exact token.alone _ other lay

end Exclusive
end IocpChatServer.Foundations
