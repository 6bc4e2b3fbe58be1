/-
Runs of a machine whose events carry the choices of its environment.

`step` answers `none` to an event the machine cannot take.  `Meets` says that every
event of a run meets a condition in the state it happens in, which is how a theorem
about runs excludes one kind of step.  The rules below turn a step lemma into a run
lemma: an invariant, and a property of every pair of neighbouring states.
-/
import Mathlib

namespace Runs

variable {S E : Type*} (step : S → E → Option S)

/-- The state after a list of events, `none` when one of them cannot be taken. -/
def run : S → List E → Option S
  | s, [] => some s
  | s, e :: es => (step s e).bind fun s' => run s' es

/-- Every event of the run meets `ok` in the state it happens in. -/
def Meets (ok : S → E → Prop) : S → List E → Prop
  | _, [] => True
  | s, e :: es => ok s e ∧ ∀ s', step s e = some s' → Meets ok s' es

variable {step}

@[simp] theorem run_nil (s : S) : run step s [] = some s := rfl

theorem run_cons (s : S) (e : E) (es : List E) :
    run step s (e :: es) = (step s e).bind fun s' => run step s' es := rfl

theorem run_cons_eq_some {s t : S} {e : E} {es : List E} :
    run step s (e :: es) = some t ↔ ∃ s', step s e = some s' ∧ run step s' es = some t := by
  rw [run_cons, Option.bind_eq_some_iff]

theorem run_append (s : S) (es es' : List E) :
    run step s (es ++ es') = (run step s es).bind fun s' => run step s' es' := by
  induction es generalizing s with
  | nil => rfl
  | cons e es ih =>
    rw [List.cons_append, run_cons, run_cons, Option.bind_assoc]
    exact Option.bind_congr fun s' _ => ih s'

theorem run_append_eq_some {s t : S} {es es' : List E} :
    run step s (es ++ es') = some t ↔
      ∃ s', run step s es = some s' ∧ run step s' es' = some t := by
  rw [run_append, Option.bind_eq_some_iff]

theorem run_concat {s s' t : S} {es : List E} {e : E} (h : run step s es = some s')
    (he : step s' e = some t) : run step s (es ++ [e]) = some t :=
  run_append_eq_some.2 ⟨s', h, run_cons_eq_some.2 ⟨t, he, rfl⟩⟩

theorem meets_cons {ok : S → E → Prop} {s s' : S} {e : E} {es : List E} (he : ok s e)
    (hs : step s e = some s') (hes : Meets step ok s' es) : Meets step ok s (e :: es) := by
  refine ⟨he, fun t ht => ?_⟩
  obtain rfl := Option.some.inj (hs.symm.trans ht)
  exact hes

theorem Meets.mono {ok ok' : S → E → Prop} (h : ∀ s e, ok s e → ok' s e) :
    ∀ {s : S} {es : List E}, Meets step ok s es → Meets step ok' s es
  | _, [], _ => trivial
  | _, _ :: _, hm => ⟨h _ _ hm.1, fun s' hs => (hm.2 s' hs).mono h⟩

theorem meets_true (s : S) (es : List E) : Meets step (fun _ _ => True) s es := by
  induction es generalizing s with
  | nil => exact trivial
  | cons e es ih => exact ⟨trivial, fun s' _ => ih s'⟩

theorem meets_append {ok : S → E → Prop} {s s' : S} {es es' : List E}
    (h : Meets step ok s (es ++ es')) (hr : run step s es = some s') :
    Meets step ok s' es' := by
  induction es generalizing s with
  | nil =>
    obtain rfl : s = s' := by simpa using hr
    exact h
  | cons e es ih =>
    obtain ⟨t, ht, hr⟩ := run_cons_eq_some.1 hr
    exact ih (h.2 t ht) hr

theorem meets_of_append {ok : S → E → Prop} {s : S} {es es' : List E}
    (h : Meets step ok s (es ++ es')) : Meets step ok s es := by
  induction es generalizing s with
  | nil => exact trivial
  | cons e es ih => exact ⟨h.1, fun s' hs => ih (h.2 s' hs)⟩

theorem Meets.append {ok : S → E → Prop} {s : S} {es es' : List E} (h : Meets step ok s es)
    (h' : ∀ s', run step s es = some s' → Meets step ok s' es') : Meets step ok s (es ++ es') := by
  induction es generalizing s with
  | nil => exact h' s rfl
  | cons e es ih =>
    refine ⟨h.1, fun t ht => ih (h.2 t ht) fun s' hs' => h' s' ?_⟩
    exact run_cons_eq_some.2 ⟨t, ht, hs'⟩

/-- The invariant rule: what every allowed step keeps, every allowed run keeps. -/
theorem invariant {ok : S → E → Prop} {inv : S → Prop}
    (hstep : ∀ s e s', inv s → ok s e → step s e = some s' → inv s')
    {s t : S} {es : List E} (hs : inv s) (hm : Meets step ok s es) (hr : run step s es = some t) :
    inv t := by
  induction es generalizing s with
  | nil =>
    obtain rfl : s = t := by simpa using hr
    exact hs
  | cons e es ih =>
    obtain ⟨s', hs', hr⟩ := run_cons_eq_some.1 hr
    exact ih (hstep s e s' hs hm.1 hs') (hm.2 s' hs') hr

/-- The invariant rule for runs without a condition on their steps. -/
theorem invariant_all {inv : S → Prop} (hstep : ∀ s e s', inv s → step s e = some s' → inv s')
    {s t : S} {es : List E} (hs : inv s) (hr : run step s es = some t) : inv t :=
  invariant (fun s e s' hi _ => hstep s e s' hi) hs (meets_true s es) hr

/-! ### Pools

The processes of a machine are a partial function, and a step replaces one of them. -/

theorem update_eq_some {A B : Type*} [DecidableEq A] {pool : A → Option B} {a p : A} {b x : B} :
    Function.update pool a (some b) p = some x ↔ (p = a ∧ x = b) ∨ (p ≠ a ∧ pool p = some x) := by
  by_cases h : p = a
  · subst h
    simp [eq_comm]
  · simp [h]

end Runs
