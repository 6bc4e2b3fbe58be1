/-
The kinds of errors that a computation throws.

Code that catches some errors and throws the others again returns when the computation it guards throws
none of the others.  That is read off the computation: every throw in it is of the kind.
-/
import Pgxsinkit.Lib.Reader

namespace Checked

variable {ε α β : Type} {kind : ε → Prop}

/-- Every error that the computation throws is of a kind. -/
def ThrowsOnly (kind : ε → Prop) (x : Except ε α) : Prop := ∀ e, x = .error e → kind e

@[simp] theorem throwsOnly_ok {a : α} : ThrowsOnly kind (.ok a : Except ε α) := nofun

@[simp] theorem throwsOnly_pure {a : α} : ThrowsOnly kind (pure a : Except ε α) := nofun

@[simp] theorem throwsOnly_error {e : ε} : ThrowsOnly kind (.error e : Except ε α) ↔ kind e := by
  constructor
  · intro h
    exact h e rfl
  · rintro h _ ⟨⟩
    exact h

@[simp] theorem throwsOnly_throw {e : ε} : ThrowsOnly kind (throw e : Except ε α) ↔ kind e := throwsOnly_error

@[simp] theorem throwsOnly_throwIf {c : Prop} [Decidable c] {e : ε} : ThrowsOnly kind (throwIf c e) ↔ (c → kind e) := by
  constructor
  · intro h hc
    exact h e (throwIf_eq_error.mpr ⟨hc, rfl⟩)
  · intro h e' he
    obtain ⟨hc, rfl⟩ := throwIf_eq_error.mp he
    exact h hc

@[simp] theorem throwsOnly_orThrow {o : Option α} {e : ε} : ThrowsOnly kind (orThrow o e) ↔ (o = none → kind e) := by
  cases o <;> simp [orThrow]

@[simp] theorem throwsOnly_bind {x : Except ε α} {f : α → Except ε β} :
    ThrowsOnly kind (x >>= f) ↔ ThrowsOnly kind x ∧ ∀ a, x = .ok a → ThrowsOnly kind (f a) := by
  cases x with
  | error e => simp
  | ok a => simp

@[simp] theorem throwsOnly_map {x : Except ε α} {f : α → β} : ThrowsOnly kind (f <$> x) ↔ ThrowsOnly kind x := by
  cases x with
  | error e => exact throwsOnly_error.trans throwsOnly_error.symm
  | ok a => exact iff_of_true nofun nofun

theorem ThrowsOnly.foldChecked {f : β → α → Except ε β} (h : ∀ b a, ThrowsOnly kind (f b a)) (acc : β) (as : List α) :
    ThrowsOnly kind (foldChecked f acc as) := by
  induction as generalizing acc with
  | nil => exact throwsOnly_ok
  | cons a as ih => exact throwsOnly_bind.mpr ⟨h acc a, fun acc' _ => ih acc'⟩

theorem ThrowsOnly.forEach {f : α → Except ε β} {as : List α} (h : ∀ a ∈ as, ThrowsOnly kind (f a)) :
    ThrowsOnly kind (forEach f as) := by
  induction as with
  | nil => exact throwsOnly_ok
  | cons a as ih =>
    rw [List.forall_mem_cons] at h
    exact throwsOnly_bind.mpr ⟨h.1, fun _ _ => ih h.2⟩

theorem ThrowsOnly.anyChecked {f : α → Except ε Bool} {as : List α} (h : ∀ a ∈ as, ThrowsOnly kind (f a)) :
    ThrowsOnly kind (anyChecked f as) := by
  induction as with
  | nil => exact throwsOnly_ok
  | cons a as ih =>
    rw [List.forall_mem_cons] at h
    refine throwsOnly_bind.mpr ⟨h.1, fun found _ => ?_⟩
    cases found with
    | true => exact throwsOnly_ok
    | false => exact ih h.2

end Checked

namespace Reader

open Checked

variable {ε α β : Type} {kind : ε → Prop}

/-- Every error that a reader throws is of a kind, whatever it reads. -/
def ThrowsOnly (kind : ε → Prop) (read : Reader ε α) : Prop := ∀ bytes, Checked.ThrowsOnly kind (read bytes)

namespace ThrowsOnly

theorem pure (a : α) : ThrowsOnly kind (Pure.pure a : Reader ε α) := fun _ => throwsOnly_ok

theorem bind {read : Reader ε α} {next : α → Reader ε β} (h : ThrowsOnly kind read)
    (hnext : ∀ a, ThrowsOnly kind (next a)) : ThrowsOnly kind (read >>= next) := fun bytes =>
  throwsOnly_bind.mpr ⟨h bytes, fun p _ => hnext p.1 p.2⟩

theorem lift {check : Except ε α} (h : Checked.ThrowsOnly kind check) :
    ThrowsOnly kind (liftM check : Reader ε α) := fun _ => throwsOnly_bind.mpr ⟨h, fun _ _ => throwsOnly_ok⟩

theorem map {read : Reader ε α} {f : α → β} (h : ThrowsOnly kind read) : ThrowsOnly kind (f <$> read) := fun bytes => by
  show Checked.ThrowsOnly kind (read bytes >>= fun p => Pure.pure (f p.1, p.2))
  exact throwsOnly_bind.mpr ⟨h bytes, fun _ _ => throwsOnly_ok⟩

theorem rejectIf {c : Prop} [Decidable c] {e : ε} (h : kind e) : ThrowsOnly kind (Reader.rejectIf c e) :=
  lift (throwsOnly_throwIf.mpr fun _ => h)

theorem raw {length : ℕ} {truncated : ε} (h : kind truncated) : ThrowsOnly kind (Reader.raw length truncated) := fun bytes => by
  unfold Reader.raw
  split
  · exact throwsOnly_ok
  · exact throwsOnly_error.mpr h

theorem number {width : ℕ} {truncated : ε} (h : kind truncated) : ThrowsOnly kind (Reader.number width truncated) :=
  (raw h).bind fun _ => .pure _

theorem fold {step : α → Reader ε α} (h : ∀ acc, ThrowsOnly kind (step acc)) (n : ℕ) (acc : α) :
    ThrowsOnly kind (Reader.fold step n acc) := by
  induction n generalizing acc with
  | zero => exact .pure acc
  | succ n ih => exact (h acc).bind ih

end ThrowsOnly

end Reader
