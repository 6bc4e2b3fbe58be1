/-
Registries that differ in the order of things alone.

The order that counts for nothing is that of the registry keys, of a table's columns, of the columns
listed in its keys, its omissions and its row filter, of the Event streams and their identity
fields, and of the keys of every object in a payload schema.  The canonical forms are then the same.
-/
import Pgxsinkit.Registry.Canonical

namespace Registry

open Keyed

theorem codeUnits_injective : Function.Injective codeUnits :=
  List.map_injective_iff.2 fun _ _ => UInt16.toNat_inj.1

/-! ### JSON up to the order of keys -/

/-- The one value with object keys of the other moved about, at any depth. -/
inductive ReordersJson : Json → Json → Prop
  | refl (value : Json) : ReordersJson value value
  | trans {a b c : Json} : ReordersJson a b → ReordersJson b c → ReordersJson a c
  | keys {fields fields' : List (Text × Json)} : fields.Perm fields' →
      (fields.map Prod.fst).Nodup → ReordersJson (.obj fields) (.obj fields')
  | item (before after : List Json) {a b : Json} : ReordersJson a b →
      ReordersJson (.arr (before ++ a :: after)) (.arr (before ++ b :: after))
  | field (before after : List (Text × Json)) (key : Text) {a b : Json} : ReordersJson a b →
      ReordersJson (.obj (before ++ (key, a) :: after)) (.obj (before ++ (key, b) :: after))

theorem stableFields_eq_map (fields : List (Text × Json)) :
    stableFields fields = fields.map fun field => (field.1, stableStringify field.2) := by
  induction fields with
  | nil => rfl
  | cons field fields ih => rw [stableFields, ih, List.map_cons]

theorem stableItems_cons {item : Json} {rest : List Json} (h : rest ≠ []) :
    stableItems (item :: rest) = stableStringify item ++ text "," ++ stableItems rest := by
  obtain ⟨next, rest, rfl⟩ := List.exists_cons_of_ne_nil h
  rw [stableItems]

theorem stableItems_congr {a b : Json} (h : stableStringify a = stableStringify b)
    (before after : List Json) :
    stableItems (before ++ a :: after) = stableItems (before ++ b :: after) := by
  induction before with
  | nil =>
    cases after with
    | nil => rw [List.nil_append, List.nil_append, stableItems, stableItems, h]
    | cons next after => rw [List.nil_append, List.nil_append, stableItems, stableItems, h]
  | cons item before ih =>
    rw [List.cons_append, List.cons_append, stableItems_cons (by simp), stableItems_cons (by simp),
      ih]

theorem stableStringify_reorders {a b : Json} (h : ReordersJson a b) :
    stableStringify a = stableStringify b := by
  induction h with
  | refl => rfl
  | trans _ _ ih ih' => exact ih.trans ih'
  | @keys fields fields' hperm hkeys =>
    have hsorted : sortBy (fun entry => codeUnits entry.1) (stableFields fields) =
        sortBy (fun entry => codeUnits entry.1) (stableFields fields') := by
      rw [stableFields_eq_map, stableFields_eq_map]
      refine sortBy_eq_of_perm (hperm.map _) ?_
      have hunits := hkeys.map codeUnits_injective
      rwa [List.map_map] at hunits ⊢
    rw [stableStringify, stableStringify, hsorted]
  | item before after _ ih => rw [stableStringify, stableStringify, stableItems_congr ih]
  | field before after key _ ih =>
    rw [stableStringify, stableStringify, stableFields_eq_map, stableFields_eq_map, List.map_append,
      List.map_append, List.map_cons, List.map_cons, ih]

/-! ### Entries up to order -/

/-- The same columns listed in some order, or no list in either. -/
abbrev SameColumns : Option (List Text) → Option (List Text) → Prop := Option.Rel List.Perm

structure RowFilterSpec.Reorders (a b : RowFilterSpec) : Prop where
  customPredicate : a.customPredicate = b.customPredicate
  columns : SameColumns a.columns b.columns
  revision : a.revision = b.revision

structure ShapeSpec.Reorders (a b : ShapeSpec) : Prop where
  tableName : a.tableName = b.tableName
  shapeKey : a.shapeKey = b.shapeKey
  physicalTable : a.physicalTable = b.physicalTable
  rowFilter : Option.Rel RowFilterSpec.Reorders a.rowFilter b.rowFilter
  scope : a.scope = b.scope
  filter : a.filter = b.filter

structure ClientProjectionSpec.Reorders (a b : ClientProjectionSpec) : Prop where
  syncedTable : a.syncedTable = b.syncedTable
  overlayTable : a.overlayTable = b.overlayTable
  journalTable : a.journalTable = b.journalTable
  localPrimaryKey : SameColumns a.localPrimaryKey b.localPrimaryKey
  omitColumns : SameColumns a.omitColumns b.omitColumns

structure SyncTableEntry.Reorders (a b : SyncTableEntry) : Prop where
  columns : a.table.columns.Perm b.table.columns
  mode : a.mode = b.mode
  primaryKey : a.primaryKey.Perm b.primaryKey
  rowClass : a.rowClass = b.rowClass
  shape : Option.Rel ShapeSpec.Reorders a.shape b.shape
  clientProjection : Option.Rel ClientProjectionSpec.Reorders a.clientProjection b.clientProjection
  managedFields : a.managedFields = b.managedFields
  consistencyGroup : a.consistencyGroup = b.consistencyGroup
  retention : a.retention = b.retention

structure EventStreamEntry.Reorders (a b : EventStreamEntry) : Prop where
  payload : Option.Rel ReordersJson a.payload b.payload
  identity : a.identity.Perm b.identity
  revision : a.revision = b.revision

/-- The same keys with entries that are related, the keys in some order. -/
def SameEntries {α : Type} (related : α → α → Prop) (a b : List (Text × α)) : Prop :=
  ∃ moved, a.Perm moved ∧ List.Forall₂ (fun x y => x.1 = y.1 ∧ related x.2 y.2) moved b

structure SyncTableRegistry.Reorders (a b : SyncTableRegistry) : Prop where
  tables : SameEntries SyncTableEntry.Reorders a.tables b.tables
  streams : SameEntries EventStreamEntry.Reorders a.streams b.streams

/-! ### The canonical form forgets the order -/

theorem sortStrings_perm {a b : List Text} (h : a.Perm b) : sortStrings a = sortStrings b :=
  sortBy_id_eq_of_perm codeUnits_injective h

theorem sortStrings_same {a b : Option (List Text)} (h : SameColumns a b) :
    a.map sortStrings = b.map sortStrings := by
  cases h with
  | none => rfl
  | some h => rw [Option.map_some, Option.map_some, sortStrings_perm h]

theorem canonicalizeColumns_perm {a b : Table} (h : a.columns.Perm b.columns) :
    canonicalizeColumns a = canonicalizeColumns b := by
  refine sortBy_eq_of_perm h ?_
  have hunits := a.distinct.map codeUnits_injective
  rwa [List.map_map] at hunits

theorem canonicalizeRowFilter_reorders {a b : Option RowFilterSpec}
    (h : Option.Rel RowFilterSpec.Reorders a b) :
    canonicalizeRowFilter a = canonicalizeRowFilter b := by
  cases h with
  | none => rfl
  | some h =>
    simp only [canonicalizeRowFilter, Option.map_some, h.customPredicate, h.revision,
      sortStrings_same h.columns]

theorem canonicalizeShape_reorders {a b : Option ShapeSpec} (h : Option.Rel ShapeSpec.Reorders a b) :
    a.map canonicalizeShape = b.map canonicalizeShape := by
  cases h with
  | none => rfl
  | some h =>
    simp only [Option.map_some, canonicalizeShape, h.tableName, h.shapeKey, h.physicalTable,
      h.scope, h.filter, canonicalizeRowFilter_reorders h.rowFilter]

theorem canonicalizeProjection_reorders {a b : Option ClientProjectionSpec}
    (h : Option.Rel ClientProjectionSpec.Reorders a b) :
    a.map canonicalizeProjection = b.map canonicalizeProjection ∧
      (a.bind (·.localPrimaryKey)).map sortStrings =
        (b.bind (·.localPrimaryKey)).map sortStrings := by
  cases h with
  | none => exact ⟨rfl, rfl⟩
  | some h =>
    have homit : ∀ {a b : Option (List Text)}, SameColumns a b →
        sortStrings (a.getD []) = sortStrings (b.getD []) := by
      intro a b h
      cases h with
      | none => rfl
      | some h => exact sortStrings_perm h
    refine ⟨?_, sortStrings_same h.localPrimaryKey⟩
    simp only [Option.map_some, canonicalizeProjection, h.syncedTable, h.overlayTable,
      h.journalTable, homit h.omitColumns]

theorem canonicalizeTable_reorders (key : Text) {a b : SyncTableEntry} (h : a.Reorders b) :
    canonicalizeTable key a = canonicalizeTable key b := by
  obtain ⟨hprojection, hlocal⟩ := canonicalizeProjection_reorders h.clientProjection
  simp only [canonicalizeTable, h.mode, h.managedFields, h.consistencyGroup, h.retention,
    sortStrings_perm h.primaryKey, hlocal, canonicalizeColumns_perm h.columns, hprojection,
    canonicalizeShape_reorders h.shape]

theorem SameEntries.perm_map {α β : Type} {related : α → α → Prop} {a b : List (Text × α)}
    (h : SameEntries related a b) {read : Text × α → β}
    (hread : ∀ key x y, related x y → read (key, x) = read (key, y)) :
    (a.map read).Perm (b.map read) := by
  obtain ⟨moved, hperm, hrelated⟩ := h
  have hmap : moved.map read = b.map read := by
    clear hperm
    induction hrelated with
    | nil => rfl
    | @cons x y moved b hhead _ ih =>
      obtain ⟨key, value⟩ := x
      obtain ⟨key', value'⟩ := y
      obtain ⟨rfl, hvalue⟩ : key = key' ∧ related value value' := hhead
      rw [List.map_cons, List.map_cons, hread key value value' hvalue, ih]
  rw [← hmap]
  exact hperm.map read

theorem canonicalizeRegistry_reorders {a b : SyncTableRegistry} (h : a.Reorders b) :
    canonicalizeRegistry a = canonicalizeRegistry b := by
  refine sortBy_eq_of_perm
    (h.tables.perm_map fun key x y hxy => canonicalizeTable_reorders key hxy) ?_
  have hunits := a.distinct.map codeUnits_injective
  rwa [List.map_map] at hunits ⊢

theorem registryRowClasses_reorders {a b : SyncTableRegistry} (h : a.Reorders b) :
    registryRowClasses a = registryRowClasses b := by
  refine sortBy_eq_of_perm
    (h.tables.perm_map fun key x y hxy => congrArg (Prod.mk key) hxy.rowClass) ?_
  have hunits := a.distinct.map codeUnits_injective
  rwa [List.map_map] at hunits ⊢

theorem canonicalEventStreamString_reorders {a b : EventStreamEntry} (h : a.Reorders b) :
    canonicalEventStreamString a = canonicalEventStreamString b := by
  have hpayload : a.payload.map stableStringify = b.payload.map stableStringify := by
    obtain ⟨hpayload, -, -⟩ := h
    revert hpayload
    generalize a.payload = payload, b.payload = payload'
    intro hpayload
    cases hpayload with
    | none => rfl
    | some hvalue => rw [Option.map_some, Option.map_some, stableStringify_reorders hvalue]
  have hidentity : sortBy (fun field => codeUnits field.1) a.identity =
      sortBy (fun field => codeUnits field.1) b.identity := by
    refine sortBy_eq_of_perm h.identity ?_
    have hunits := a.distinct.map codeUnits_injective
    rwa [List.map_map] at hunits
  rw [canonicalEventStreamString, canonicalEventStreamString, hpayload, hidentity, h.revision]

theorem registryEventStreams_reorders {a b : SyncTableRegistry} (h : a.Reorders b) :
    registryEventStreams a = registryEventStreams b := by
  -- the hashes are taken of the sorted entries, but sorting the hashed ones comes to the same
  have hsort : ∀ registry : SyncTableRegistry, registryEventStreams registry =
      sortBy (fun entry => codeUnits entry.1) (registry.streams.map fun entry =>
        (entry.1, hashString (canonicalEventStreamString entry.2))) := fun registry =>
    List.map_insertionSort _ _ _ _ fun _ _ _ _ => Iff.rfl
  rw [hsort, hsort]
  refine sortBy_eq_of_perm (h.streams.perm_map fun key x y hxy => by
    rw [canonicalEventStreamString_reorders hxy]) ?_
  have hunits := a.streamsDistinct.map codeUnits_injective
  rwa [List.map_map] at hunits ⊢

end Registry
