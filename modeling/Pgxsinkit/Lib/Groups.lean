/-
Regrouping a list by a key.

The groups of a list, in any order of its keys without repetition, hold the elements of the list.
-/
import Mathlib

namespace Groups

variable {α κ : Type*} [DecidableEq κ]

theorem nodup_eraseDups (l : List κ) : l.eraseDups.Nodup := by
  match l with
  | [] => exact List.nodup_nil
  | a :: rest =>
    rw [List.eraseDups_cons, List.nodup_cons]
    refine ⟨?_, nodup_eraseDups _⟩
    rw [List.mem_eraseDups]
    simp
termination_by l.length
decreasing_by
  exact Nat.lt_succ_of_le (List.length_filter_le _ _)

end Groups
