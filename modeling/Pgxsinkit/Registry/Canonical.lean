/-
The canonical form of a registry (`fingerprint.ts`) and its siblings in the registry lock
(`registry-diff.ts`): the row classes and the contract hashes of the Event streams.

Of a table entry the model keeps what one of these reads.  An object literal is listed in the order
`Object.entries` gives its properties.  The payload schema of an Event stream is the JSON Schema the
schema library makes of it, or `none` where the library throws.
-/
import Pgxsinkit.Lib.JsonText
import Pgxsinkit.Lib.Keyed
import Mathlib.Data.List.Lex

namespace Registry

/-- What `asString` orders strings by. -/
def codeUnits (units : Text) : List ℕ := units.map UInt16.toNat

def sortStrings (strings : List Text) : List Text := Keyed.sortBy codeUnits strings

/-! ### The registry -/

structure Column where
  name : Text
  type : Text
  notNull : Bool
  hasDefault : Bool
  primary : Bool
deriving DecidableEq

/-- A PostgreSQL table, which has no two columns of one name. -/
structure Table where
  columns : List Column
  distinct : (columns.map Column.name).Nodup

inductive PredicateValue where
  | str (value : Text)
  | num (digits : Text)
  | nonFinite
  | bool (value : Bool)
  | null

inductive PredicateLeafOp where
  | eq | neq | lt | lte | gt | gte | like

inductive Predicate where
  | leaf (col : Text) (op : PredicateLeafOp) (value : PredicateValue)
  | isNull (col : Text) (isNull : Bool)
  | and (nodes : List Predicate)
  | or (nodes : List Predicate)
  | not (node : Predicate)
  | inSubquery (col table project : Text) (filter : Option Predicate) (negated : Option Bool)

/-- `RowFilterSpec.revision`, a string or a number. -/
inductive Revision where
  | str (value : Text)
  | num (digits : Text)

structure RowFilterSpec where
  /-- whether there is a `customPredicate` -/
  customPredicate : Bool
  columns : Option (List Text)
  revision : Option Revision

structure ShapeSpec where
  tableName : Text
  shapeKey : Text
  physicalTable : Option Text
  rowFilter : Option RowFilterSpec
  scope : Option (List Text)
  filter : Option Predicate

structure ClientProjectionSpec where
  syncedTable : Option Text
  overlayTable : Option Text
  journalTable : Option Text
  localPrimaryKey : Option (List Text)
  omitColumns : Option (List Text)

/-- A managed field; a property that is not a string, or not an array, is `none`. -/
structure ManagedFieldSpec where
  propertyKey : Option Text
  column : Option Text
  strategy : Option Text
  applyOn : Option (List Text)

inductive TableMode where
  | readonly | writeonly | readwrite

inductive Retention where
  | persistent | ephemeral

structure SyncTableEntry where
  table : Table
  mode : TableMode
  primaryKey : List Text
  rowClass : Option Text
  shape : Option ShapeSpec
  clientProjection : Option ClientProjectionSpec
  managedFields : Option (List ManagedFieldSpec)
  consistencyGroup : Option Text
  retention : Option Retention

structure EventStreamEntry where
  payload : Option Json
  /-- each identity field with its claim path -/
  identity : List (Text × List Text)
  distinct : (identity.map Prod.fst).Nodup
  /-- the digits of the number -/
  revision : Option Text

structure SyncTableRegistry where
  tables : List (Text × SyncTableEntry)
  distinct : (tables.map Prod.fst).Nodup
  streams : List (Text × EventStreamEntry)
  streamsDistinct : (streams.map Prod.fst).Nodup

/-! ### The canonical form -/

structure CanonicalProjection where
  syncedTable : Option Text
  overlayTable : Option Text
  journalTable : Option Text
  omitColumns : List Text
deriving DecidableEq

structure CanonicalRowFilter where
  hasCustomPredicate : Bool
  columns : Option (List Text)
  revision : Option Text
deriving DecidableEq

structure CanonicalShape where
  tableName : Text
  shapeKey : Text
  physicalTable : Option Text
  rowFilter : Option CanonicalRowFilter
  scope : Option (List Text)
  filter : Option Text
deriving DecidableEq

structure CanonicalManagedField where
  field : Text
  strategy : Text
  applyOn : List Text
deriving DecidableEq

structure CanonicalTable where
  key : Text
  mode : Text
  primaryKey : List Text
  localPrimaryKey : Option (List Text)
  columns : List Column
  projection : Option CanonicalProjection
  shape : Option CanonicalShape
  managedFields : List CanonicalManagedField
  consistencyGroup : Option Text
  retention : Text
deriving DecidableEq

def canonicalizeColumns (table : Table) : List Column :=
  Keyed.sortBy (fun column => codeUnits column.name) table.columns

def canonicalizeManagedFields (fields : Option (List ManagedFieldSpec)) :
    List CanonicalManagedField :=
  Keyed.sortBy (fun field => codeUnits field.field) <| (fields.getD []).map fun record =>
    { field := (record.propertyKey.or record.column).getD []
      strategy := record.strategy.getD []
      applyOn := sortStrings (record.applyOn.getD []) }

def PredicateValue.toJson : PredicateValue → Json
  | .str value => .str value
  | .num digits => .num digits
  | .nonFinite => .null
  | .bool value => .bool value
  | .null => .null

def PredicateLeafOp.name : PredicateLeafOp → Text
  | .eq => text "eq"
  | .neq => text "neq"
  | .lt => text "lt"
  | .lte => text "lte"
  | .gt => text "gt"
  | .gte => text "gte"
  | .like => text "like"

mutual

def render : Predicate → Json
  | .and nodes => .obj [(text "and", .arr (renderAll nodes))]
  | .or nodes => .obj [(text "or", .arr (renderAll nodes))]
  | .not node => .obj [(text "not", render node)]
  | .inSubquery col table project filter negated =>
    .obj [(text "col", .str col),
      (text "in", .obj [(text "table", .str table), (text "project", .str project),
        (text "where", renderFilter filter)]),
      (text "negated", .bool (negated == some true))]
  | .isNull col isNull => .obj [(text "col", .str col), (text "isNull", .bool isNull)]
  | .leaf col op value =>
    .obj [(text "col", .str col), (text "op", .str op.name), (text "value", value.toJson)]

def renderAll : List Predicate → List Json
  | [] => []
  | node :: nodes => render node :: renderAll nodes

def renderFilter : Option Predicate → Json
  | none => .null
  | some node => render node

end

def canonicalizePredicate (node : Option Predicate) : Option Text :=
  node.map fun node => (render node).print

def Revision.toString : Revision → Text
  | .str value => value
  | .num digits => digits

def canonicalizeRowFilter (filter : Option RowFilterSpec) : Option CanonicalRowFilter :=
  filter.map fun filter =>
    { hasCustomPredicate := filter.customPredicate
      columns := filter.columns.map sortStrings
      revision := filter.revision.map Revision.toString }

def canonicalizeProjection (projection : ClientProjectionSpec) : CanonicalProjection :=
  { syncedTable := projection.syncedTable
    overlayTable := projection.overlayTable
    journalTable := projection.journalTable
    omitColumns := sortStrings (projection.omitColumns.getD []) }

def canonicalizeShape (shape : ShapeSpec) : CanonicalShape :=
  { tableName := shape.tableName
    shapeKey := shape.shapeKey
    physicalTable := shape.physicalTable
    rowFilter := canonicalizeRowFilter shape.rowFilter
    scope := shape.scope
    filter := canonicalizePredicate shape.filter }

def TableMode.name : TableMode → Text
  | .readonly => text "readonly"
  | .writeonly => text "writeonly"
  | .readwrite => text "readwrite"

def Retention.name : Retention → Text
  | .persistent => text "persistent"
  | .ephemeral => text "ephemeral"

def canonicalizeTable (key : Text) (entry : SyncTableEntry) : CanonicalTable :=
  { key
    mode := entry.mode.name
    primaryKey := sortStrings entry.primaryKey
    localPrimaryKey := (entry.clientProjection.bind (·.localPrimaryKey)).map sortStrings
    columns := canonicalizeColumns entry.table
    projection := entry.clientProjection.map canonicalizeProjection
    shape := entry.shape.map canonicalizeShape
    managedFields := canonicalizeManagedFields entry.managedFields
    consistencyGroup := entry.consistencyGroup
    retention := (entry.retention.getD .persistent).name }

def canonicalizeRegistry (registry : SyncTableRegistry) : List CanonicalTable :=
  Keyed.sortBy (fun table => codeUnits table.key) <|
    registry.tables.map fun entry => canonicalizeTable entry.1 entry.2

/-! ### Its text -/

def strings (items : List Text) : Json := .arr (items.map .str)

def orNull {α : Type} (toJson : α → Json) (value : Option α) : Json := value.elim .null toJson

def Column.toJson (column : Column) : Json :=
  .obj [(text "name", .str column.name), (text "type", .str column.type),
    (text "notNull", .bool column.notNull), (text "hasDefault", .bool column.hasDefault),
    (text "primary", .bool column.primary)]

def CanonicalProjection.toJson (projection : CanonicalProjection) : Json :=
  .obj [(text "syncedTable", orNull .str projection.syncedTable),
    (text "overlayTable", orNull .str projection.overlayTable),
    (text "journalTable", orNull .str projection.journalTable),
    (text "omitColumns", strings projection.omitColumns)]

def CanonicalRowFilter.toJson (filter : CanonicalRowFilter) : Json :=
  .obj [(text "hasCustomPredicate", .bool filter.hasCustomPredicate),
    (text "columns", orNull strings filter.columns),
    (text "revision", orNull .str filter.revision)]

def CanonicalShape.toJson (shape : CanonicalShape) : Json :=
  .obj [(text "tableName", .str shape.tableName), (text "shapeKey", .str shape.shapeKey),
    (text "physicalTable", orNull .str shape.physicalTable),
    (text "rowFilter", orNull CanonicalRowFilter.toJson shape.rowFilter),
    (text "scope", orNull strings shape.scope), (text "where", orNull .str shape.filter)]

def CanonicalManagedField.toJson (managed : CanonicalManagedField) : Json :=
  .obj [(text "field", .str managed.field), (text "strategy", .str managed.strategy),
    (text "applyOn", strings managed.applyOn)]

def CanonicalTable.toJson (table : CanonicalTable) : Json :=
  .obj [(text "key", .str table.key), (text "mode", .str table.mode),
    (text "primaryKey", strings table.primaryKey),
    (text "localPrimaryKey", orNull strings table.localPrimaryKey),
    (text "columns", .arr (table.columns.map Column.toJson)),
    (text "projection", orNull CanonicalProjection.toJson table.projection),
    (text "shape", orNull CanonicalShape.toJson table.shape),
    (text "managedFields", .arr (table.managedFields.map CanonicalManagedField.toJson)),
    (text "consistencyGroup", orNull .str table.consistencyGroup),
    (text "retention", .str table.retention)]

def canonicalRegistryString (registry : SyncTableRegistry) : Text :=
  (Json.arr ((canonicalizeRegistry registry).map CanonicalTable.toJson)).print

/-! ### Row classes and Event streams -/

/-- Every registry key with its row class, `none` when it has none. -/
abbrev RegistryRowClasses := List (Text × Option Text)

def registryRowClasses (registry : SyncTableRegistry) : RegistryRowClasses :=
  Keyed.sortBy (fun entry => codeUnits entry.1) <|
    registry.tables.map fun entry => (entry.1, entry.2.rowClass)

mutual

/-- `stableStringify`: the text with the keys of every object sorted. -/
def stableStringify : Json → Text
  | .arr items => text "[" ++ stableItems items ++ text "]"
  | .obj fields =>
    text "\x7b" ++ (text ",").intercalate ((Keyed.sortBy (fun entry => codeUnits entry.1)
      (stableFields fields)).map fun entry => Json.quote entry.1 ++ text ":" ++ entry.2) ++
      text "\x7d"
  | .null => text "null"
  | .bool value => (Json.bool value).print
  | .num digits => digits
  | .str units => Json.quote units

def stableItems : List Json → Text
  | [] => []
  | [item] => stableStringify item
  | item :: next :: rest => stableStringify item ++ text "," ++ stableItems (next :: rest)

def stableFields : List (Text × Json) → List (Text × Text)
  | [] => []
  | (key, value) :: rest => (key, stableStringify value) :: stableFields rest

end

def canonicalEventStreamString (entry : EventStreamEntry) : Text :=
  let payload := (entry.payload.map stableStringify).getD (text "\"<unrepresentable>\"")
  let identity := (Keyed.sortBy (fun field => codeUnits field.1) entry.identity).map fun field =>
    Json.arr [.str field.1, strings field.2]
  stableStringify (.obj [(text "payload", .str payload), (text "identity", .arr identity),
    (text "revision", .num (entry.revision.getD (text "0")))])

/-- One byte through the two 32-bit lanes of `hashString`. -/
def hashByte (lanes : ℕ × ℕ) (byte : UInt8) : ℕ × ℕ :=
  let low := lanes.2 ^^^ byte.toNat
  let lowProduct := low * 0x1b3
  let carry := lowProduct / 0x100000000
  ((lanes.1 * 0x1b3 + low * 0x100 + carry) % 0x100000000, lowProduct - carry * 0x100000000)

/-- `toString(16).padStart(8, "0")` of a 32-bit number -/
def hexLane (lane : ℕ) : Text :=
  [7, 6, 5, 4, 3, 2, 1, 0].map fun digit => Json.hexDigit (lane / 0x10 ^ digit % 0x10)

def hashString (input : Text) : Text :=
  let lanes := (Unicode.textEncode input).foldl hashByte (0xcbf29ce4, 0x84222325)
  hexLane lanes.1 ++ hexLane lanes.2

/-- Every Event stream with the hash of its contract. -/
abbrev RegistryEventStreams := List (Text × Text)

def registryEventStreams (registry : SyncTableRegistry) : RegistryEventStreams :=
  (Keyed.sortBy (fun entry => codeUnits entry.1) registry.streams).map fun entry =>
    (entry.1, hashString (canonicalEventStreamString entry.2))

end Registry
