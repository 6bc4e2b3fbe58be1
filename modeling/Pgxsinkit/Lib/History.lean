/-
Histories of a machine, the latest entry first.

A rule for what may happen is a relation between an entry and what came before it; a history
follows the rule when each of its entries does.  A machine that only adds to its history can
be judged by the history alone.
-/
import Pgxsinkit.Lib.Runs

namespace Runs

variable {A S E : Type*}

/-- Every entry is allowed after those before it. -/
def Admits (allowed : A → List A → Prop) : List A → Prop
  | [] => True
  | a :: past => allowed a past ∧ Admits allowed past

variable {allowed allowed' : A → List A → Prop} {history history' : List A}

@[simp] theorem admits_nil : Admits allowed [] := trivial

@[simp] theorem admits_cons {a : A} : Admits allowed (a :: history) ↔ allowed a history ∧ Admits allowed history :=
  Iff.rfl

theorem Admits.suffix (h : Admits allowed history) (hs : history' <:+ history) : Admits allowed history' := by
  induction history with
  | nil =>
    obtain rfl := List.suffix_nil.1 hs
    exact h
  | cons a past ih =>
    rcases List.suffix_cons_iff.1 hs with rfl | hs
    · exact h
    · exact ih h.2 hs

theorem admits_iff : Admits allowed history ↔ ∀ a past, a :: past <:+ history → allowed a past := by
  constructor
  · intro h a past hs
    exact (h.suffix hs).1
  · intro h
    induction history with
    | nil => trivial
    | cons a past ih =>
      refine ⟨h a past (List.suffix_refl _), ih fun b past' hs => ?_⟩
      exact h b past' (hs.trans (List.suffix_cons a past))

theorem Admits.mono (h : ∀ a past, allowed a past → allowed' a past) (ha : Admits allowed history) :
    Admits allowed' history :=
  admits_iff.2 fun a past hs => h a past (admits_iff.1 ha a past hs)

/-! ### Runs that add to a history -/

variable {step : S → E → Option S} {recorded : S → List A}

theorem run_suffix (hstep : ∀ s e s', step s e = some s' → recorded s <:+ recorded s') {s t : S} {es : List E}
    (hr : run step s es = some t) : recorded s <:+ recorded t := by
  have hkept : ∀ u e u', recorded s <:+ recorded u → step u e = some u' → recorded s <:+ recorded u' :=
    fun u e u' hi hs => hi.trans (hstep u e u' hs)
  exact invariant_all hkept (List.suffix_refl _) hr

/-- What each step breaks exactly when it does not meet `ok`, and nothing mends, holds after a run exactly when every
step met it. -/
theorem holds_iff_meets {inv good : S → Prop} {ok : S → E → Prop}
    (hinv : ∀ s e s', inv s → step s e = some s' → inv s')
    (hback : ∀ s e s', step s e = some s' → good s' → good s)
    (hstep : ∀ s e s', inv s → good s → step s e = some s' → (good s' ↔ ok s e)) {s t : S} {es : List E}
    (hi : inv s) (hg : good s) (hr : run step s es = some t) : good t ↔ Meets step ok s es := by
  have hbroken : ∀ {u : S} {es : List E}, run step u es = some t → good t → good u := by
    intro u es hr ht
    induction es generalizing u with
    | nil =>
      obtain rfl : u = t := by simpa using hr
      exact ht
    | cons e es ih =>
      obtain ⟨u', hs, hr⟩ := run_cons_eq_some.1 hr
      exact hback u e u' hs (ih hr)
  induction es generalizing s with
  | nil =>
    obtain rfl : s = t := by simpa using hr
    exact ⟨fun _ => trivial, fun _ => hg⟩
  | cons e es ih =>
    obtain ⟨s', hs, hr⟩ := run_cons_eq_some.1 hr
    by_cases hok : ok s e
    · have hnext := ih (hinv s e s' hi hs) ((hstep s e s' hi hg hs).2 hok) hr
      constructor
      · intro ht
        exact meets_cons hok hs (hnext.1 ht)
      · intro hm
        exact hnext.2 (hm.2 s' hs)
    · have hlost : ¬ good s' := fun hg' => hok ((hstep s e s' hi hg hs).1 hg')
      exact ⟨fun ht => absurd (hbroken hr ht) hlost, fun hm => absurd hm.1 hok⟩

end Runs
