/-
Three-valued logic over lists of truth values; `none` is UNKNOWN.
-/
import Mathlib

namespace Kleene

/-- AND: a FALSE decides it, then an UNKNOWN. -/
def all (values : List (Option Bool)) : Option Bool :=
  if some false ∈ values then some false else if none ∈ values then none else some true

/-- OR: a TRUE decides it, then an UNKNOWN. -/
def any (values : List (Option Bool)) : Option Bool :=
  if some true ∈ values then some true else if none ∈ values then none else some false

def not (value : Option Bool) : Option Bool := value.map Bool.not

theorem all_eq_true {values : List (Option Bool)} :
    all values = some true ↔ ∀ value ∈ values, value = some true := by
  constructor
  · intro h value hin
    rw [all] at h
    split at h
    · exact absurd (Option.some.inj h) Bool.false_ne_true
    · rename_i hfalse
      split at h
      · exact absurd h.symm (Option.some_ne_none _)
      · rename_i hunknown
        match value with
        | none => exact absurd hin hunknown
        | some false => exact absurd hin hfalse
        | some true => rfl
  · intro h
    have hfalse : some false ∉ values := fun hin => Bool.false_ne_true (Option.some.inj (h _ hin))
    have hunknown : none ∉ values := fun hin => Option.some_ne_none _ (h _ hin).symm
    rw [all, if_neg hfalse, if_neg hunknown]

end Kleene
