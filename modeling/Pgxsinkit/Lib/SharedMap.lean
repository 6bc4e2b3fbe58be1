/-
A map that several writers share.

Each writer has a content of its own, the rows it holds at present, and the map is meant
to be the union of the contents.  A write brings one writer's net change of each key; a
writer that starts over first clears the rows that lie in its scope.  No row of the map
belongs to nobody, whatever the order of the writes (`Covers`, its first half).  That no
held row is missing needs that no write deletes what another writer holds (`SparesOthers`).
-/
import Mathlib

namespace SharedMap

variable {W K R : Type*}

structure Write (W K R : Type*) where
  writer : W
  /-- the scope of a writer that starts over -/
  clears : Option (R → Bool)
  /-- `some none` deletes the key, `none` says nothing about it -/
  net : K → Option (Option R)

/-- The map after a clear. -/
def cleared (clears : Option (R → Bool)) (map : K → Option R) (key : K) : Option R :=
  match clears with
  | none => map key
  | some scope => (map key).filter fun row => !scope row

namespace Write

variable (write : Write W K R)

def onMap (map : K → Option R) (key : K) : Option R :=
  (write.net key).getD (cleared write.clears map key)

/-- What the writer holds after the write. -/
def held (content : K → Option R) (key : K) : Option R :=
  (write.net key).getD (if write.clears.isSome then none else content key)

def onContents [DecidableEq W] (contents : W → K → Option R) : W → K → Option R :=
  Function.update contents write.writer (write.held (contents write.writer))

/-- The write takes the row under the key away. -/
def Deletes (map : K → Option R) (key : K) : Prop :=
  map key ≠ none ∧ write.onMap map key = none

/-- The write takes no row away that another writer holds. -/
def SparesOthers (contents : W → K → Option R) (map : K → Option R) : Prop :=
  ∀ key, write.Deletes map key → ∀ w, w ≠ write.writer → contents w key = none

end Write

/-- The map is the union of the contents, as far as the keys go. -/
structure Covers (contents : W → K → Option R) (map : K → Option R) : Prop where
  sound : ∀ key row, map key = some row → ∃ w, contents w key = some row
  complete : ∀ key w, contents w key ≠ none → map key ≠ none

/-- A content whose rows lie in the scope of the write. -/
def InScope (write : Write W K R) (content : K → Option R) : Prop :=
  ∀ scope, write.clears = some scope → ∀ key row, content key = some row → scope row = true

section

variable [DecidableEq W] {write : Write W K R} {contents : W → K → Option R} {map : K → Option R}

theorem onContents_self :
    write.onContents contents write.writer = write.held (contents write.writer) :=
  Function.update_self _ _ _

theorem onContents_other {w : W} (h : w ≠ write.writer) :
    write.onContents contents w = contents w :=
  Function.update_of_ne h _ _

theorem sound_onMap (hscope : InScope write (contents write.writer))
    (h : ∀ key row, map key = some row → ∃ w, contents w key = some row) (key : K) (row : R)
    (hrow : write.onMap map key = some row) : ∃ w, write.onContents contents w key = some row := by
  cases hnet : write.net key with
  | some new =>
    refine ⟨write.writer, ?_⟩
    rw [Write.onMap, hnet] at hrow
    rw [onContents_self, Write.held, hnet]
    exact hrow
  | none =>
    rw [Write.onMap, hnet, Option.getD_none] at hrow
    cases hclears : write.clears with
    | none =>
      rw [hclears] at hrow
      obtain ⟨w, hw⟩ := h key row hrow
      by_cases hwriter : w = write.writer
      · refine ⟨write.writer, ?_⟩
        rw [onContents_self, Write.held, hnet, hclears]
        exact hwriter ▸ hw
      · exact ⟨w, by rw [onContents_other hwriter]; exact hw⟩
    | some scope =>
      rw [hclears, cleared, Option.filter_eq_some_iff] at hrow
      obtain ⟨w, hw⟩ := h key row hrow.1
      -- the writer's own rows are in its scope, so a row that stayed is another's
      have hwriter : w ≠ write.writer := by
        rintro rfl
        have hin := hscope scope hclears key row hw
        rw [hin] at hrow
        exact absurd hrow.2 (by simp)
      exact ⟨w, by rw [onContents_other hwriter]; exact hw⟩

theorem complete_onMap (hspares : write.SparesOthers contents map)
    (h : ∀ key w, contents w key ≠ none → map key ≠ none) (key : K) (w : W)
    (hw : write.onContents contents w key ≠ none) : write.onMap map key ≠ none := by
  intro hnone
  by_cases hwriter : w = write.writer
  · subst hwriter
    rw [onContents_self, Write.held] at hw
    rw [Write.onMap] at hnone
    cases hnet : write.net key with
    | some new =>
      rw [hnet] at hw hnone
      exact hw hnone
    | none =>
      rw [hnet] at hw hnone
      cases hclears : write.clears with
      | none =>
        rw [hclears] at hw hnone
        exact h key write.writer hw hnone
      | some scope =>
        rw [hclears] at hw
        exact hw rfl
  · rw [onContents_other hwriter] at hw
    exact hw (hspares key ⟨h key w hw, hnone⟩ w hwriter)

/-- A write that spares the others keeps the map the union of the contents. -/
theorem Covers.onMap (h : Covers contents map) (hscope : InScope write (contents write.writer))
    (hspares : write.SparesOthers contents map) :
    Covers (write.onContents contents) (write.onMap map) :=
  ⟨sound_onMap hscope h.sound, complete_onMap hspares h.complete⟩

end

/-! ### Several writes -/

section

variable [DecidableEq W]

def onMaps : List (Write W K R) → (K → Option R) → K → Option R
  | [], map => map
  | write :: writes, map => onMaps writes (write.onMap map)

def onAllContents : List (Write W K R) → (W → K → Option R) → W → K → Option R
  | [], contents => contents
  | write :: writes, contents => onAllContents writes (write.onContents contents)

/-- Every write, in the state it happens in, spares the others. -/
def AllSpare : List (Write W K R) → (W → K → Option R) → (K → Option R) → Prop
  | [], _, _ => True
  | write :: writes, contents, map =>
    write.SparesOthers contents map ∧
      AllSpare writes (write.onContents contents) (write.onMap map)

theorem onAllContents_other {writes : List (Write W K R)} {w : W}
    (h : ∀ write ∈ writes, write.writer ≠ w) (contents : W → K → Option R) :
    onAllContents writes contents w = contents w := by
  induction writes generalizing contents with
  | nil => rfl
  | cons write writes ih =>
    have hrest := ih (fun x hx => h x (List.mem_cons_of_mem _ hx)) (write.onContents contents)
    exact hrest.trans (onContents_other (Ne.symm (h write List.mem_cons_self)))

/-- Writes of different writers leave each what its own write leaves. -/
theorem onAllContents_of_mem (writes : List (Write W K R)) (hn : (writes.map Write.writer).Nodup)
    {write : Write W K R} (hmem : write ∈ writes) (contents : W → K → Option R) :
    onAllContents writes contents write.writer = write.held (contents write.writer) := by
  induction writes generalizing contents with
  | nil => cases hmem
  | cons first writes ih =>
    rw [List.map_cons, List.nodup_cons] at hn
    rcases List.mem_cons.1 hmem with rfl | hmem
    · have hother : ∀ x ∈ writes, x.writer ≠ write.writer := by
        intro x hx heq
        exact hn.1 (heq ▸ List.mem_map_of_mem hx)
      exact (onAllContents_other hother _).trans onContents_self
    · have hne : write.writer ≠ first.writer := by
        intro heq
        exact hn.1 (heq ▸ List.mem_map_of_mem hmem)
      exact (ih hn.2 hmem _).trans (by rw [onContents_other hne])

theorem Covers.writes {writes : List (Write W K R)} (hn : (writes.map Write.writer).Nodup)
    {contents : W → K → Option R} {map : K → Option R} (h : Covers contents map)
    (hscope : ∀ write ∈ writes, InScope write (contents write.writer))
    (hspare : AllSpare writes contents map) :
    Covers (onAllContents writes contents) (onMaps writes map) := by
  induction writes generalizing contents map with
  | nil => exact h
  | cons write writes ih =>
    rw [List.map_cons, List.nodup_cons] at hn
    refine ih hn.2 (h.onMap (hscope write List.mem_cons_self) hspare.1) (fun x hx => ?_) hspare.2
    have hne : x.writer ≠ write.writer := by
      intro heq
      exact hn.1 (heq ▸ List.mem_map_of_mem hx)
    rw [onContents_other hne]
    exact hscope x (List.mem_cons_of_mem _ hx)

end

/-- When the contents agree with one another, the map is their union, rows included. -/
theorem Covers.eq_some_iff {contents : W → K → Option R} {map : K → Option R}
    (h : Covers contents map) {server : K → Option R}
    (hserver : ∀ w key row, contents w key = some row → server key = some row) {key : K} {row : R} :
    map key = some row ↔ ∃ w, contents w key = some row := by
  refine ⟨h.sound key row, fun ⟨w, hw⟩ => ?_⟩
  have hne : contents w key ≠ none := by
    rw [hw]
    exact Option.some_ne_none row
  obtain ⟨row', hrow'⟩ := Option.ne_none_iff_exists'.1 (h.complete key w hne)
  obtain ⟨w', hw'⟩ := h.sound key row' hrow'
  have heq : some row' = some row := (hserver w' key row' hw').symm.trans (hserver w key row hw)
  rw [hrow', heq]

end SharedMap
