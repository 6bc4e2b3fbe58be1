/-
Programs that can be cut off between any two of their effects.

A program runs against a script: what the environment answers to its effects, one entry an
effect.  A script that has run out is a crash, so the states at which some script stops a program
are the states it can leave behind.  `Sound` is the weakest precondition over all scripts: `inv`
for the states left behind, `post` for a return, `exc` for an error that is thrown.
-/
import Mathlib

namespace Crash

universe u

/-- How a run ends: with what is left of the script, or cut off. -/
inductive Ending (ω σ ε : Type) (α : Type u)
  | returned (value : α) (script : List ω) (state : σ)
  | thrown (error : ε) (script : List ω) (state : σ)
  | stopped (state : σ)

def Prog (ω σ ε : Type) (α : Type u) : Type u := List ω → σ → Ending ω σ ε α

variable {ω σ ε : Type} {α β : Type}

/-- The state that a run leaves behind. -/
def Ending.state : Ending ω σ ε α → σ
  | .returned _ _ s | .thrown _ _ s | .stopped s => s

namespace Prog

protected def pure (a : α) : Prog ω σ ε α := fun script s => .returned a script s

protected def bind (p : Prog ω σ ε α) (f : α → Prog ω σ ε β) : Prog ω σ ε β := fun script s =>
  match p script s with
  | .returned a script' s' => f a script' s'
  | .thrown e script' s' => .thrown e script' s'
  | .stopped s' => .stopped s'

instance : Monad (Prog ω σ ε) where
  pure := Prog.pure
  bind := Prog.bind

def throw (e : ε) : Prog ω σ ε α := fun script s => .thrown e script s

def tryCatch (p : Prog ω σ ε α) (handler : ε → Prog ω σ ε α) : Prog ω σ ε α := fun script s =>
  match p script s with
  | .thrown e script' s' => handler e script' s'
  | ending => ending

/-- One effect: the next answer of the environment decides what it does. -/
def effect (f : ω → σ → Except ε α × σ) : Prog ω σ ε α := fun script s =>
  match script with
  | [] => .stopped s
  | answer :: script =>
    match f answer s with
    | (.ok a, s') => .returned a script s'
    | (.error e, s') => .thrown e script s'

end Prog

/-- What is asked of an ending. -/
def Ending.Meets (inv : σ → Prop) (post : α → σ → Prop) (exc : ε → σ → Prop) :
    Ending ω σ ε α → Prop
  | .returned a _ s => post a s
  | .thrown e _ s => exc e s
  | .stopped s => inv s

/-- From `s`, whatever the environment answers and wherever it cuts the program off. -/
def Sound (inv : σ → Prop) (p : Prog ω σ ε α) (post : α → σ → Prop) (exc : ε → σ → Prop)
    (s : σ) : Prop :=
  ∀ script, (p script s).Meets inv post exc

variable {inv : σ → Prop} {post post' : α → σ → Prop} {exc exc' : ε → σ → Prop} {s : σ}

theorem Ending.Meets.mono {ending : Ending ω σ ε α} (h : ending.Meets inv post exc)
    (hpost : ∀ a s, post a s → post' a s) (hexc : ∀ e s, exc e s → exc' e s) :
    ending.Meets inv post' exc' := by
  cases ending with
  | returned a script s => exact hpost a s h
  | thrown e script s => exact hexc e s h
  | stopped s => exact h

theorem Ending.Meets.and {ending : Ending ω σ ε α} {inv' : σ → Prop}
    (h : ending.Meets inv post exc) (h' : ending.Meets inv' post' exc') :
    ending.Meets inv (fun a s => post a s ∧ post' a s) exc := by
  cases ending with
  | returned a script s => exact ⟨h, h'⟩
  | thrown e script s => exact h
  | stopped s => exact h

theorem Ending.Meets.state {ending : Ending ω σ ε α}
    (h : ending.Meets inv (fun _ => inv) fun _ => inv) : inv ending.state := by
  cases ending <;> exact h

/-- A bind from one script on, where only the rest runs under every script. -/
theorem Ending.Meets.bind {p : Prog ω σ ε α} {f : α → Prog ω σ ε β} {post : β → σ → Prop}
    {script : List ω}
    (h : (p script s).Meets inv (fun a => Sound inv (f a) post exc) exc) :
    ((p >>= f) script s).Meets inv post exc := by
  change Ending.Meets inv post exc (Prog.bind p f script s)
  unfold Prog.bind
  cases hp : p script s with
  | returned a script' s' =>
    rw [hp] at h
    exact h script'
  | thrown e script' s' =>
    rw [hp] at h
    exact h
  | stopped s' =>
    rw [hp] at h
    exact h

/-- A program whose first effect has its answer in front of it. -/
theorem Ending.Meets.bind_effect {f : ω → σ → Except ε α × σ} {k : α → Prog ω σ ε β}
    {post : β → σ → Prop} {answer : ω} {script : List ω}
    (h : match f answer s with
      | (.ok a, s') => (k a script s').Meets inv post exc
      | (.error e, s') => exc e s') :
    ((Prog.effect f >>= k) (answer :: script) s).Meets inv post exc := by
  change Ending.Meets inv post exc (Prog.bind (Prog.effect f) k (answer :: script) s)
  unfold Prog.bind Prog.effect
  split at h <;> rename_i heq <;> simp only [heq] <;> exact h

/-! ### The rules -/

theorem Sound.mono {p : Prog ω σ ε α} (h : Sound inv p post exc s)
    (hpost : ∀ a s, post a s → post' a s) (hexc : ∀ e s, exc e s → exc' e s) :
    Sound inv p post' exc' s :=
  fun script => (h script).mono hpost hexc

theorem Sound.weaken {p : Prog ω σ ε α} (h : Sound inv p post exc s)
    (hpost : ∀ a s, post a s → post' a s) : Sound inv p post' exc s :=
  h.mono hpost fun _ _ hexc => hexc

theorem sound_pure {a : α} (h : post a s) :
    Sound inv (pure a : Prog ω σ ε α) post exc s :=
  fun _ => h

theorem sound_throw {e : ε} (h : exc e s) :
    Sound inv (Prog.throw e : Prog ω σ ε α) post exc s :=
  fun _ => h

theorem sound_bind {p : Prog ω σ ε α} {f : α → Prog ω σ ε β} {post : β → σ → Prop}
    (h : Sound inv p (fun a => Sound inv (f a) post exc) exc s) :
    Sound inv (p >>= f) post exc s :=
  fun script => (h script).bind

theorem sound_tryCatch {p : Prog ω σ ε α} {handler : ε → Prog ω σ ε α}
    (h : Sound inv p post (fun e => Sound inv (handler e) post exc) s) :
    Sound inv (Prog.tryCatch p handler) post exc s := by
  intro script
  unfold Prog.tryCatch
  have hp := h script
  cases hrun : p script s with
  | returned a script' s' =>
    rw [hrun] at hp
    exact hp
  | thrown e script' s' =>
    rw [hrun] at hp
    exact hp script'
  | stopped s' =>
    rw [hrun] at hp
    exact hp

/-- What an effect has to be checked for: the state it can be cut off in, and each answer. -/
theorem sound_effect {f : ω → σ → Except ε α × σ} (hinv : inv s)
    (h : ∀ answer, match f answer s with
      | (.ok a, s') => post a s'
      | (.error e, s') => exc e s') :
    Sound inv (Prog.effect f) post exc s := by
  intro script
  cases script with
  | nil => exact hinv
  | cons answer script =>
    have hans := h answer
    unfold Prog.effect
    split at hans <;> rename_i heq <;> simp only [heq] <;> exact hans

/-- What a program keeps on its way it keeps however it ends. -/
theorem Sound.state {p : Prog ω σ ε α} (h : Sound inv p (fun _ => inv) (fun _ => inv) s)
    (script : List ω) : inv (p script s).state :=
  (h script).state

end Crash
