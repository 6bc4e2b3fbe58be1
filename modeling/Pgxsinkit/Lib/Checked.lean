/-
Straight-line code that may throw.

A TypeScript function whose guards throw is an `Except` computation here: each
guard is a `throwIf`, each call a bind.  The lemmas below turn "the computation
returned `x`" into the conjunction of the negated guards, which is how every
later specification of a checked function is stated.
-/
import Mathlib

namespace Checked

variable {ε α β : Type}

/-- `if (c) throw e;` -/
def throwIf (c : Prop) [Decidable c] (e : ε) : Except ε Unit :=
  if c then .error e else .ok ()

@[simp] theorem throwIf_eq_ok {c : Prop} [Decidable c] {e : ε} {u : Unit} :
    throwIf c e = .ok u ↔ ¬ c := by
  unfold throwIf
  by_cases h : c <;> simp [h]

@[simp] theorem throwIf_eq_error {c : Prop} [Decidable c] {e e' : ε} :
    throwIf c e = .error e' ↔ c ∧ e = e' := by
  unfold throwIf
  by_cases h : c <;> simp [h]

@[simp] theorem bind_eq_ok {x : Except ε α} {f : α → Except ε β} {b : β} :
    (x >>= f) = .ok b ↔ ∃ a, x = .ok a ∧ f a = .ok b := by
  cases x <;> simp [bind, Except.bind]

@[simp] theorem pure_eq_ok {a b : α} : (pure a : Except ε α) = .ok b ↔ a = b := by
  simp [pure, Except.pure]

@[simp] theorem map_eq_ok {x : Except ε α} {f : α → β} {b : β} :
    (f <$> x) = .ok b ↔ ∃ a, x = .ok a ∧ f a = b := by
  cases x <;> simp [Functor.map, Except.map]

@[simp] theorem throw_ne_ok {e : ε} {b : α} :
    (throw e : Except ε α) ≠ .ok b := by
  simp [throw, throwThe, MonadExceptOf.throw]

@[simp] theorem ok_bind {a : α} {f : α → Except ε β} :
    ((.ok a : Except ε α) >>= f) = f a := rfl

@[simp] theorem error_bind {e : ε} {f : α → Except ε β} :
    ((.error e : Except ε α) >>= f) = .error e := rfl

/-- The value of an `Option`, or the given error: `if (x === undefined) throw e;`. -/
def orThrow (o : Option α) (e : ε) : Except ε α :=
  match o with
  | some a => .ok a
  | none => .error e

@[simp] theorem orThrow_eq_ok {o : Option α} {e : ε} {a : α} :
    orThrow o e = .ok a ↔ o = some a := by
  cases o <;> simp [orThrow]

@[simp] theorem orThrow_some {a : α} {e : ε} : orThrow (some a) e = .ok a := rfl

/-- A loop over a list that carries an accumulator and may throw. -/
def foldChecked (f : β → α → Except ε β) (acc : β) : List α → Except ε β
  | [] => .ok acc
  | a :: as => f acc a >>= fun acc' => foldChecked f acc' as

@[simp] theorem foldChecked_nil {f : β → α → Except ε β} {acc : β} :
    foldChecked f acc [] = .ok acc := rfl

@[simp] theorem foldChecked_cons {f : β → α → Except ε β} {acc : β} {a : α} {as : List α} :
    foldChecked f acc (a :: as) = f acc a >>= fun acc' => foldChecked f acc' as := rfl

/-- `for (const a of list) f(a);` for a check `f` whose value is not used. -/
def forEach (f : α → Except ε β) : List α → Except ε Unit
  | [] => .ok ()
  | a :: as => f a >>= fun _ => forEach f as

@[simp] theorem forEach_eq_ok {f : α → Except ε β} {as : List α} {u : Unit} :
    forEach f as = .ok u ↔ ∀ a ∈ as, ∃ b, f a = .ok b := by
  induction as with
  | nil => simp [forEach]
  | cons a as ih => simp [forEach, ih]

/-- `for (const a of list) if (f(a)) return true; return false;` -/
def anyChecked (f : α → Except ε Bool) : List α → Except ε Bool
  | [] => .ok false
  | a :: as => f a >>= fun found => if found then .ok true else anyChecked f as

theorem anyChecked_eq_true {f : α → Except ε Bool} {as : List α}
    (h : anyChecked f as = .ok true) : ∃ a ∈ as, f a = .ok true := by
  induction as with
  | nil => simp [anyChecked] at h
  | cons a as ih =>
    simp only [anyChecked, bind_eq_ok] at h
    obtain ⟨found, hf, h⟩ := h
    cases found with
    | true => exact ⟨a, List.mem_cons_self, hf⟩
    | false =>
      obtain ⟨b, hb, hfb⟩ := ih h
      exact ⟨b, List.mem_cons_of_mem _ hb, hfb⟩

theorem anyChecked_eq_false {f : α → Except ε Bool} {as : List α} :
    anyChecked f as = .ok false ↔ ∀ a ∈ as, f a = .ok false := by
  induction as with
  | nil => simp [anyChecked]
  | cons a as ih =>
    simp only [anyChecked, bind_eq_ok, List.forall_mem_cons]
    constructor
    · rintro ⟨found, hf, h⟩
      cases found with
      | true => simp at h
      | false => exact ⟨hf, ih.mp h⟩
    · rintro ⟨hf, h⟩
      exact ⟨false, hf, ih.mpr h⟩

end Checked
