/-
Logs of framed records.

A log is a list of records, each written as a frame that carries its number.  A reader goes through the
frames from the first on, hands each record to the state, and stops at the first that is torn, out of
place or refused: what it reads is the longest beginning that is a log (`Longest`).  A log that is cut
somewhere is read as the records whose frames are whole (`Reads.cut`).
-/
import Mathlib

namespace FramedLog

variable {A R S : Type*}

/-- Where a frame stands: its number, and the offset it begins at. -/
structure Place where
  number : ℕ
  offset : ℕ

/-- The place after a frame of the given length. -/
def Place.next (place : Place) (length : ℕ) : Place := ⟨place.number + 1, place.offset + length⟩

/-- How the records of a log are written. -/
structure Format (A R : Type*) where
  frame : ℕ → R → List A
  /-- The records that can stand at a place. -/
  Fits : Place → R → Prop
  /-- A frame tells where it ends and what it holds. -/
  frame_inj : ∀ {place : Place} {record record' : R} {rest rest' : List A}, Fits place record → Fits place record' →
    frame place.number record ++ rest = frame place.number record' ++ rest' → record = record'

variable (format : Format A R) (apply : S → R → Option S)

/-- The bytes begin with the frames of the records, each accepted by the state that the ones before it leave. -/
inductive Reads : Place → S → List A → List R → S → List A → Prop
  | nil (place : Place) (state : S) (rest : List A) : Reads place state rest [] state rest
  | cons {place : Place} {state state' final : S} {record : R} {bytes rest : List A} {records : List R} :
      format.Fits place record → apply state record = some state' →
      Reads (place.next (format.frame place.number record).length) state' bytes records final rest →
      Reads place state (format.frame place.number record ++ bytes) (record :: records) final rest

/-- No frame that fits here and is accepted begins the bytes. -/
def Stops (place : Place) (state : S) (bytes : List A) : Prop :=
  ∀ record, format.Fits place record → (apply state record).isSome → ¬ format.frame place.number record <+: bytes

/-- The longest log that the bytes begin with. -/
inductive Longest : Place → S → List A → List R → S → List A → Prop
  | stop {place : Place} {state : S} {rest : List A} : Stops format apply place state rest →
      Longest place state rest [] state rest
  | cons {place : Place} {state state' final : S} {record : R} {bytes rest : List A} {records : List R} :
      format.Fits place record → apply state record = some state' →
      Longest (place.next (format.frame place.number record).length) state' bytes records final rest →
      Longest place state (format.frame place.number record ++ bytes) (record :: records) final rest

/-- The place after the frames of the records. -/
def Place.after (place : Place) : List R → Place
  | [] => place
  | record :: records => (place.next (format.frame place.number record).length).after records

/-- The frames of the records, from a number on. -/
def frames (number : ℕ) : List R → List A
  | [] => []
  | record :: records => format.frame number record ++ frames (number + 1) records

variable {format apply} {place : Place} {state mid final final' : S} {bytes rest rest' : List A}
  {records records' : List R} {record : R}

theorem number_after (place : Place) (records : List R) :
    (place.after format records).number = place.number + records.length := by
  induction records generalizing place with
  | nil => rfl
  | cons record records ih =>
    rw [Place.after, ih, List.length_cons]
    show place.number + 1 + records.length = _
    omega

theorem offset_after (place : Place) (records : List R) :
    (place.after format records).offset = place.offset + (frames format place.number records).length := by
  induction records generalizing place with
  | nil => rfl
  | cons record records ih =>
    rw [Place.after, ih, frames, List.length_append]
    show place.offset + _ + _ = _
    exact Nat.add_assoc _ _ _

theorem after_append (place : Place) (records records' : List R) :
    place.after format (records ++ records') = (place.after format records).after format records' := by
  induction records generalizing place with
  | nil => rfl
  | cons record records ih => exact ih _

theorem frames_append (number : ℕ) (records records' : List R) :
    frames format number (records ++ records') =
      frames format number records ++ frames format (number + records.length) records' := by
  induction records generalizing number with
  | nil => rfl
  | cons record records ih =>
    rw [List.cons_append, frames, ih, frames, List.append_assoc, List.length_cons]
    congr 3
    omega

/-! ### Logs that are read -/

namespace Reads

theorem bytes_eq (h : Reads format apply place state bytes records final rest) :
    bytes = frames format place.number records ++ rest := by
  induction h with
  | nil place state rest => rfl
  | cons hfits happly _ ih =>
    rw [ih, frames, List.append_assoc]
    rfl

theorem foldlM (h : Reads format apply place state bytes records final rest) :
    records.foldlM apply state = some final := by
  induction h with
  | nil place state rest => rfl
  | cons hfits happly _ ih =>
    rw [List.foldlM_cons, happly]
    exact ih

theorem longest (h : Reads format apply place state bytes records mid rest)
    (h' : Longest format apply (place.after format records) mid rest records' final rest') :
    Longest format apply place state bytes (records ++ records') final rest' := by
  induction h with
  | nil place state rest => exact h'
  | cons hfits happly _ ih => exact .cons hfits happly (ih h')

theorem append (h : Reads format apply place state bytes records mid rest)
    (h' : Reads format apply (place.after format records) mid rest records' final rest') :
    Reads format apply place state bytes (records ++ records') final rest' := by
  induction h with
  | nil place state rest => exact h'
  | cons hfits happly _ ih => exact .cons hfits happly (ih h')

/-- What stands behind the frames does not matter. -/
theorem change_rest (h : Reads format apply place state bytes records final rest) (rest' : List A) :
    Reads format apply place state (frames format place.number records ++ rest') records final rest' := by
  induction h with
  | nil place state rest => exact .nil place state rest'
  | cons hfits happly _ ih =>
    rw [frames, List.append_assoc]
    exact .cons hfits happly ih

theorem single : Reads format apply place state bytes [record] final rest →
    format.Fits place record ∧ apply state record = some final := by
  rintro (_ | ⟨hfits, happly, hrest⟩)
  cases hrest
  exact ⟨hfits, happly⟩

theorem of_single (hfits : format.Fits place record) (happly : apply state record = some final) :
    Reads format apply place state (frames format place.number [record]) [record] final [] := by
  have hread : Reads format apply place state (format.frame place.number record ++ []) [record] final [] :=
    .cons hfits happly (.nil _ _ [])
  exact hread

/-- One more frame at the end of a log. -/
theorem concat (h : Reads format apply place state bytes records mid rest)
    (hfits : format.Fits (place.after format records) record) (happly : apply mid record = some final) :
    Reads format apply place state (frames format place.number (records ++ [record])) (records ++ [record]) final [] := by
  have hread := (h.change_rest _).append (of_single hfits happly)
  rw [number_after] at hread
  rw [frames_append]
  exact hread

end Reads

theorem Longest.reads (h : Longest format apply place state bytes records final rest) :
    Reads format apply place state bytes records final rest ∧
      Stops format apply (place.after format records) final rest := by
  induction h with
  | stop hstops => exact ⟨.nil _ _ _, hstops⟩
  | cons hfits happly _ ih => exact ⟨.cons hfits happly ih.1, ih.2⟩

theorem longest_iff : Longest format apply place state bytes records final rest ↔
    Reads format apply place state bytes records final rest ∧
      Stops format apply (place.after format records) final rest := by
  refine ⟨Longest.reads, fun h => ?_⟩
  have hlongest := h.1.longest (.stop h.2)
  rwa [List.append_nil] at hlongest

/-- Bytes begin with one longest log. -/
theorem Longest.unique (h : Longest format apply place state bytes records final rest)
    (h' : Longest format apply place state bytes records' final' rest') :
    records' = records ∧ final' = final ∧ rest' = rest := by
  induction h generalizing records' with
  | stop hstops =>
    cases h' with
    | stop => exact ⟨rfl, rfl, rfl⟩
    | cons hfits happly _ => exact absurd (List.prefix_append _ _) (hstops _ hfits (by rw [happly]; rfl))
  | @cons place state state' final record bytes rest records hfits happly _ ih =>
    generalize hbytes : format.frame place.number record ++ bytes = whole at h'
    cases h' with
    | stop hstops =>
      refine absurd ?_ (hstops _ hfits (by rw [happly]; rfl))
      rw [← hbytes]
      exact List.prefix_append _ _
    | @cons _ _ state'' _ record' bytes' _ _ hfits' happly' hrest =>
      obtain rfl := format.frame_inj hfits hfits' hbytes
      obtain rfl := List.append_cancel_left hbytes
      obtain rfl := Option.some.inj (happly.symm.trans happly')
      obtain ⟨rfl, rfl, rfl⟩ := ih hrest
      exact ⟨rfl, rfl, rfl⟩

/-! ### Torn logs -/

/-- Less than a whole frame is no frame. -/
theorem stops_torn (hfits : format.Fits place record) (hbegins : bytes <+: format.frame place.number record)
    (hlt : bytes.length < (format.frame place.number record).length) : Stops format apply place state bytes := by
  intro record' hfits' _ hframe
  obtain ⟨tail, htail⟩ := hframe
  obtain ⟨tail', htail'⟩ := hbegins
  have hwhole : format.frame place.number record ++ [] = format.frame place.number record' ++ (tail ++ tail') := by
    rw [List.append_nil, ← htail', ← htail, List.append_assoc]
  obtain rfl := format.frame_inj hfits hfits' hwhole
  rw [← htail, List.length_append] at hlt
  omega

theorem stops_nil (hne : ∀ record, format.frame place.number record ≠ []) : Stops format apply place state [] :=
  fun record _ _ hframe => hne record (List.prefix_nil.mp hframe)

/-- A log that is cut is read as the records whose frames are whole. -/
theorem Reads.cut (hne : ∀ number record, format.frame number record ≠ [])
    (h : Reads format apply place state bytes records final []) (length : ℕ) :
    ∃ whole torn mid rest, records = whole ++ torn ∧
      Longest format apply place state (bytes.take length) whole mid rest ∧
      ((frames format place.number whole).length ≤ length ∨ whole = []) := by
  generalize hempty : ([] : List A) = nothing at h
  induction h generalizing length with
  | nil place state rest =>
    subst hempty
    rw [List.take_nil]
    exact ⟨[], [], state, [], rfl, .stop (stops_nil (hne _)), .inr rfl⟩
  | @cons place state state' final record bytes rest records hfits happly _ ih =>
    by_cases hle : (format.frame place.number record).length ≤ length
    · obtain ⟨whole, torn, mid, rest, rfl, hlongest, hlength⟩ := ih (length - (format.frame place.number record).length) hempty
      refine ⟨record :: whole, torn, mid, rest, rfl, ?_, .inl ?_⟩
      · rw [List.take_append, List.take_of_length_le hle]
        exact .cons hfits happly hlongest
      · rw [frames, List.length_append]
        rcases hlength with hlength | rfl
        · change (frames format (place.number + 1) whole).length ≤ _ at hlength
          omega
        · exact hle
    · -- the cut goes through this frame
      refine ⟨[], record :: records, state, _, rfl, .stop (stops_torn hfits ?_ ?_), .inr rfl⟩
      · rw [List.take_append_of_le_length (by omega)]
        exact List.take_prefix _ _
      · rw [List.length_take]
        omega

end FramedLog
