/-
A file whose writes are durable once it is flushed.

Writes and truncations are effects over the durable bytes, in the order of the calls.  A crash keeps the
effects before some point, and of a write at that point a beginning of its bytes; `Survives` are the images
that a crash can leave.
-/
import Mathlib

namespace DurableFile

variable {A : Type*}

inductive Effect (A : Type*)
  | write (offset : ℕ) (bytes : List A)
  | truncate (size : ℕ)

/-- A write past the end leaves a gap of `blank`. -/
def writeAt (blank : A) (image : List A) (offset : ℕ) (bytes : List A) : List A :=
  image.take offset ++ List.replicate (offset - image.length) blank ++ bytes ++ image.drop (offset + bytes.length)

def truncateTo (blank : A) (image : List A) (size : ℕ) : List A :=
  image.take size ++ List.replicate (size - image.length) blank

def Effect.apply (blank : A) (image : List A) : Effect A → List A
  | .write offset bytes => writeAt blank image offset bytes
  | .truncate size => truncateTo blank image size

/-- What a crash keeps of the effect it falls in. -/
def Effect.cut (length : ℕ) : Effect A → Effect A
  | .write offset bytes => .write offset (bytes.take length)
  | .truncate size => .truncate size

structure File (A : Type*) where
  durable : List A
  effects : List (Effect A)

variable (blank : A)

/-- The bytes that a read sees. -/
def File.content (file : File A) : List A := file.effects.foldl (Effect.apply blank) file.durable

def File.add (file : File A) (effect : Effect A) : File A := { file with effects := file.effects ++ [effect] }

def File.flush (file : File A) : File A := ⟨file.content blank, []⟩

/-- The image after a crash that keeps so many effects, and of the next one, when `length` is given, so many bytes. -/
def File.crash (file : File A) (kept : ℕ) (length : Option ℕ) : List A :=
  ((file.effects.take kept) ++ (length.bind fun n => (file.effects[kept]?).map (Effect.cut n)).toList).foldl
    (Effect.apply blank) file.durable

/-- A crash can leave the image. -/
def File.Survives (file : File A) (image : List A) : Prop := ∃ kept length, file.crash blank kept length = image

variable {blank} {file : File A} {image bytes : List A} {effect : Effect A}

@[simp] theorem content_add : (file.add effect).content blank = effect.apply blank (file.content blank) := by
  simp [File.add, File.content, List.foldl_append]

@[simp] theorem content_flush : (file.flush blank).content blank = file.content blank := rfl

theorem flush_eq (h : file.effects = []) : file.flush blank = file := by
  obtain ⟨durable, effects⟩ := file
  obtain rfl : effects = [] := h
  rfl

theorem writeAt_end (image bytes : List A) : writeAt blank image image.length bytes = image ++ bytes := by
  simp [writeAt]

theorem truncateTo_of_le {size : ℕ} (h : size ≤ image.length) : truncateTo blank image size = image.take size := by
  rw [truncateTo, Nat.sub_eq_zero_of_le h]
  exact List.append_nil _

/-- The bytes that a read sees survive when the crash comes late. -/
theorem survives_content (file : File A) : file.Survives blank (file.content blank) :=
  ⟨file.effects.length, none, by simp [File.crash, File.content]⟩

theorem survives_flushed {durable : List A} : (⟨durable, []⟩ : File A).Survives blank image ↔ image = durable := by
  constructor
  · rintro ⟨kept, length, rfl⟩
    cases length <;> simp [File.crash]
  · rintro rfl
    exact survives_content _

/-- One more effect leaves the images from before it, and those that it is cut in. -/
theorem survives_add (h : (file.add effect).Survives blank image) :
    file.Survives blank image ∨ image = effect.apply blank (file.content blank) ∨
      ∃ length, image = (effect.cut length).apply blank (file.content blank) := by
  obtain ⟨kept, length, rfl⟩ := h
  rcases Nat.lt_trichotomy kept file.effects.length with hlt | rfl | hlt
  · left
    refine ⟨kept, length, ?_⟩
    simp only [File.crash, File.add]
    rw [List.take_append_of_le_length hlt.le, List.getElem?_append_left hlt]
  · cases length with
    | none =>
      left
      refine ⟨file.effects.length, none, ?_⟩
      simp [File.crash, File.add]
    | some n =>
      refine .inr (.inr ⟨n, ?_⟩)
      simp [File.crash, File.add, File.content, List.foldl_append]
  · refine .inr (.inl ?_)
    have hnone : (file.effects ++ [effect])[kept]? = none := by
      rw [List.getElem?_eq_none_iff, List.length_append, List.length_singleton]
      omega
    have hall : (file.effects ++ [effect]).take kept = file.effects ++ [effect] :=
      List.take_of_length_le (by rw [List.length_append, List.length_singleton]; omega)
    rw [← content_add]
    cases length <;> simp [File.crash, File.add, hnone, hall, File.content]

end DurableFile
