/-
The registry-diff gate (`registry-diff.ts`): the changes from one canonical registry to another.

A loop that pushes onto `changes` is the list of what it pushes; the loops over the columns and over
the tables are one, `Keyed.diffMaps`.
-/
import Pgxsinkit.Registry.Canonical

namespace Registry

open Keyed

inductive RegistryChangeSeverity where
  | compatible | risky | breaking
deriving DecidableEq

structure RegistryChange where
  severity : RegistryChangeSeverity
  table : Text
  detail : Text
deriving DecidableEq

structure RegistryDiff where
  severity : RegistryChangeSeverity
  changes : List RegistryChange

def severityRank : RegistryChangeSeverity → ℕ
  | .compatible => 0
  | .risky => 1
  | .breaking => 2

def maxSeverity (changes : List RegistryChange) : RegistryChangeSeverity :=
  changes.foldl (fun worst change =>
    if severityRank change.severity > severityRank worst then change.severity else worst) .compatible

/-- `if (condition) changes.push(change)` -/
def pushIf (condition : Prop) [Decidable condition] (change : RegistryChange) :
    List RegistryChange :=
  if condition then [change] else []

/-! ### Columns -/

def diffColumn (table : Text) (prevColumn nextColumn : Column) : List RegistryChange :=
  pushIf (prevColumn.type ≠ nextColumn.type) ⟨.breaking, table,
    text "column type changed: " ++ prevColumn.name ++ text " (" ++ prevColumn.type ++
      text " -> " ++ nextColumn.type ++ text ")"⟩ ++
  if !prevColumn.notNull && nextColumn.notNull then
    [⟨.breaking, table, text "column became NOT NULL: " ++ prevColumn.name⟩]
  else
    pushIf (prevColumn.notNull && !nextColumn.notNull)
      ⟨.compatible, table, text "column relaxed to nullable: " ++ prevColumn.name⟩

def addedColumn (table : Text) (nextColumn : Column) : RegistryChange :=
  if !nextColumn.notNull || nextColumn.hasDefault then
    ⟨.compatible, table, text "column added: " ++ nextColumn.name⟩
  else
    ⟨.breaking, table, text "NOT NULL column added without default: " ++ nextColumn.name⟩

def diffColumns (table : Text) (previous next : List Column) : List RegistryChange :=
  diffMaps (byKey Column.name previous) (byKey Column.name next)
    (fun name => ⟨.breaking, table, text "column removed: " ++ name⟩)
    (fun _ prevColumn nextColumn => diffColumn table prevColumn nextColumn)
    (fun _ nextColumn => addedColumn table nextColumn)

/-! ### Projection and shape -/

def diffProjection (table : Text) (previous next : Option CanonicalProjection) :
    List RegistryChange :=
  pushIf (previous.bind (·.syncedTable) ≠ next.bind (·.syncedTable))
    ⟨.breaking, table, text "projection syncedTable changed (orphans local data)"⟩ ++
  pushIf (previous.bind (·.overlayTable) ≠ next.bind (·.overlayTable))
    ⟨.breaking, table, text "projection overlayTable changed (orphans local data)"⟩ ++
  pushIf (previous.bind (·.journalTable) ≠ next.bind (·.journalTable))
    ⟨.breaking, table, text "projection journalTable changed (orphans local data)"⟩ ++
  pushIf ((orNull strings (previous.map (·.omitColumns))).print ≠
      (orNull strings (next.map (·.omitColumns))).print)
    ⟨.risky, table, text "omitted columns changed (re-sync required)"⟩

/-- `target`: the three names of a shape's source joined by bars -/
def CanonicalShape.target (shape : CanonicalShape) : Text :=
  shape.tableName ++ text "|" ++ shape.shapeKey ++ text "|" ++ shape.physicalTable.getD []

def diffShape (table : Text) (previous next : Option CanonicalShape) : List RegistryChange :=
  pushIf (previous.map (·.target) ≠ next.map (·.target))
    ⟨.risky, table, text "shape target changed (re-sync required)"⟩ ++
  pushIf ((orNull CanonicalRowFilter.toJson (previous.bind (·.rowFilter))).print ≠
      (orNull CanonicalRowFilter.toJson (next.bind (·.rowFilter))).print)
    ⟨.risky, table, text "row filter changed (re-sync required)"⟩ ++
  pushIf ((orNull strings (previous.bind (·.scope))).print ≠
      (orNull strings (next.bind (·.scope))).print)
    ⟨.risky, table, text "shape scope changed (re-sync required)"⟩ ++
  pushIf (previous.bind (·.filter) ≠ next.bind (·.filter))
    ⟨.risky, table, text "shape predicate changed (re-sync required)"⟩

/-! ### Tables -/

def diffTable (table : Text) (previous next : CanonicalTable) : List RegistryChange :=
  diffColumns table previous.columns next.columns ++
  pushIf ((strings previous.primaryKey).print ≠ (strings next.primaryKey).print)
    ⟨.breaking, table, text "primary key changed"⟩ ++
  pushIf ((orNull strings previous.localPrimaryKey).print ≠
      (orNull strings next.localPrimaryKey).print)
    ⟨.breaking, table, text "local primary key changed"⟩ ++
  pushIf (previous.mode ≠ next.mode)
    ⟨.risky, table, text "mode changed: " ++ previous.mode ++ text " -> " ++ next.mode⟩ ++
  diffProjection table previous.projection next.projection ++
  diffShape table previous.shape next.shape ++
  pushIf (previous.consistencyGroup ≠ next.consistencyGroup)
    ⟨.risky, table, text "consistency group changed: " ++
      previous.consistencyGroup.getD (text "(singleton)") ++ text " -> " ++
      next.consistencyGroup.getD (text "(singleton)") ++ text " (re-sync required)"⟩ ++
  pushIf ((Json.arr (previous.managedFields.map CanonicalManagedField.toJson)).print ≠
      (Json.arr (next.managedFields.map CanonicalManagedField.toJson)).print)
    ⟨.risky, table, text "managed fields changed (re-sync required)"⟩

def diffRowClass (table : Text) (previous next : Option Text) : List RegistryChange :=
  if previous = next then [] else
    match previous, next with
    | none, next => [⟨.compatible, table, text "row class declared: " ++ next.getD (text "null")⟩]
    | some previous, none => [⟨.risky, table,
        text "row class removed: " ++ previous ++ text " (un-enrols from registry invariants)"⟩]
    | some previous, some next => [⟨.risky, table, text "row class changed: " ++ previous ++
        text " -> " ++ next ++ text " (review invariant enrollment)"⟩]

/-! ### Event streams -/

/-- The properties that every object has from `Object.prototype`. -/
def objectPrototype : List Text :=
  ["constructor", "hasOwnProperty", "isPrototypeOf", "propertyIsEnumerable", "toLocaleString",
    "toString", "valueOf", "__defineGetter__", "__defineSetter__", "__lookupGetter__",
    "__lookupSetter__", "__proto__"].map text

def diffEventStream (previous : RegistryEventStreams) (next : RegistryEventStreams) (name : Text) :
    List RegistryChange :=
  let changed : RegistryChange := ⟨.risky, name, text "event stream " ++ name ++
    text " payload/identity changed (must remain backward-compatible; " ++
    text "incompatible change requires a new Event-stream name)"⟩
  match next.lookup name with
  | none =>
    -- an inherited property is neither `undefined` nor a hash
    if name ∈ objectPrototype then [changed]
    else [⟨.breaking, name, text "event stream removed: " ++ name ++
      text " (in-flight client events will be deferred/refused)"⟩]
  | some nextHash => pushIf (previous.lookup name ≠ some nextHash) changed

def diffEventStreams (previous next : RegistryEventStreams) : List RegistryChange :=
  ((sortStrings (previous.map Prod.fst)).flatMap fun name => diffEventStream previous next name) ++
  (sortStrings (next.map Prod.fst)).flatMap fun name =>
    if (previous.lookup name).isSome ∨ name ∈ objectPrototype then []
    else [⟨.compatible, name, text "event stream added: " ++ name⟩]

/-! ### Registries -/

/-- The loops over the tables; both maps of row classes hold the keys of their tables. -/
def diffTables (previous next : List CanonicalTable) (prevClasses nextClasses : RegistryRowClasses) :
    List RegistryChange :=
  diffMaps (byKey CanonicalTable.key previous) (byKey CanonicalTable.key next)
    (fun key => ⟨.breaking, key, text "table removed"⟩)
    (fun key prevTable nextTable => diffTable key prevTable nextTable ++
      diffRowClass key (prevClasses.lookup key).join (nextClasses.lookup key).join)
    (fun key _ => ⟨.compatible, key, text "table added"⟩)

def diffCanonicalRegistries (previous next : List CanonicalTable)
    (prevClasses nextClasses : RegistryRowClasses) (prevStreams nextStreams : RegistryEventStreams) :
    RegistryDiff :=
  let changes := diffTables previous next prevClasses nextClasses ++
    diffEventStreams prevStreams nextStreams
  { changes, severity := maxSeverity changes }

def compareRegistries (previous next : SyncTableRegistry) : RegistryDiff :=
  diffCanonicalRegistries (canonicalizeRegistry previous) (canonicalizeRegistry next)
    (registryRowClasses previous) (registryRowClasses next)
    (registryEventStreams previous) (registryEventStreams next)

end Registry
