/-
Live query rows as objects (`worker/live-diff.ts`).

A row is a JavaScript object, and so is a cell that is no primitive: a `Date`, a `Uint8Array`, an array or
a JSON object, which each result has anew.  Rows are told apart by the text of their key cells and compared
cell by cell with `Object.is`.
-/
import Pgxsinkit.Lib.KeyedDiff
import Pgxsinkit.Copy.Serialize

namespace LiveQueries.Objects

open Copy KeyedDiff

/-! ### Cells -/

inductive Primitive
  | null
  | string (units : Text)
  /-- a finite number, by the digits `String(value)` writes for it -/
  | number (digits : Text)
  | negativeZero
  | nonFinite (value : NonFinite)
  | bigint (value : ℤ)
  | boolean (value : Bool)
  deriving DecidableEq

/-- What an object holds. -/
inductive Content
  | primitive (value : Primitive)
  /-- in milliseconds; none for an invalid date -/
  | date (time : Option ℤ)
  | bytes (bytes : List UInt8)
  | array (items : List Content)
  | object (fields : List (Text × Content))

/-- A value of a row; `Object.is` tells cells apart as they are. -/
inductive Cell
  | primitive (value : Primitive)
  | object (ref : ℕ)
  deriving DecidableEq

structure RowObject where
  ref : ℕ
  cells : OrdMap Text Cell

/-! ### `String(value)` -/

def Primitive.asString : Primitive → Text
  | null => text "null"
  | string units => units
  | number digits => digits
  | negativeZero => text "0"
  | nonFinite value => value.toText
  | bigint value => bigintText value
  | boolean value => text (if value then "true" else "false")

/-- What the rows are read with: the objects in memory, and `Date.prototype.toString`, which goes by the
local time zone. -/
structure Host where
  heap : ℕ → Content
  dateString : Option ℤ → Text

mutual

/-- It throws on an object whose own `toString` is no function. -/
def Content.asString (host : Host) : Content → Option Text
  | .primitive value => some value.asString
  | .date time => some (host.dateString time)
  | .bytes bytes => some ((text ",").intercalate (bytes.map fun byte => Copy.decimal byte.toNat))
  | .array items => (joinedItems host items).map (text ",").intercalate
  | .object fields =>
    if fields.any fun field => field.1 = text "toString" then none else some (text "[object Object]")

/-- The elements as `Array.prototype.join` writes them. -/
def joinedItems (host : Host) : List Content → Option (List Text)
  | [] => some []
  | .primitive .null :: items => (joinedItems host items).map ([] :: ·)
  | item :: items => do
    let item ← item.asString host
    return item :: (← joinedItems host items)

end

/-- `String(row[col])` -/
def cellString (host : Host) : Option Cell → Option Text
  | none => some (text "undefined")
  | some (.primitive value) => some value.asString
  | some (.object ref) => (host.heap ref).asString host

/-! ### live-diff.ts -/

def KEY_SEP : Text := [0]

/-- `rowKey`, of a query that has key columns. -/
def rowKey (host : Host) (row : RowObject) (pkColumns : List Text) : Option Text := do
  let parts ← pkColumns.mapM fun col => cellString host (row.cells.get? col)
  return KEY_SEP.intercalate parts

def rowsEqual (a b : RowObject) : Bool :=
  a.cells.size == b.cells.size && a.cells.entries.all fun e => b.cells.get? e.1 == some e.2

/-- The rows with their keys. -/
def keyed (host : Host) (rows : List RowObject) (pkColumns : List Text) : Option (List (Text × RowObject)) :=
  rows.mapM fun row => (rowKey host row pkColumns).map fun key => (key, row)

structure LiveDiffState where
  pkColumns : List Text
  previous : OrdMap Text RowObject

def seedLiveDiffState (host : Host) (rows : List RowObject) (pkColumns : List Text) :
    Option LiveDiffState := do
  let entries ← keyed host rows pkColumns
  return { pkColumns, previous := seed entries }

def computeLiveDiff (host : Host) (state : LiveDiffState) (nextRows : List RowObject) :
    Option (Diff Text RowObject × LiveDiffState) := do
  let entries ← keyed host nextRows state.pkColumns
  let (diff, previous) := diff rowsEqual state.previous entries
  return (diff, { state with previous })

structure LiveRowsMaterializer where
  pkColumns : List Text
  byKey : OrdMap Text RowObject
  rows : List RowObject

def LiveRowsMaterializer.seed (host : Host) (pkColumns : List Text) (initialRows : List RowObject) :
    Option LiveRowsMaterializer := do
  let entries ← keyed host initialRows pkColumns
  return { pkColumns, byKey := KeyedDiff.seed entries, rows := initialRows }

def LiveRowsMaterializer.apply (m : LiveRowsMaterializer) (diff : Diff Text RowObject) :
    LiveRowsMaterializer :=
  let (byKey, rows) := fold m.byKey diff
  { m with byKey, rows }

/-! ### A live query -/

/-- The rows shown for each later result. -/
def showResults (host : Host) (state : LiveDiffState) (m : LiveRowsMaterializer) :
    List (List RowObject) → Option (List (List RowObject))
  | [] => some []
  | rows :: results => do
    let (diff, state) ← computeLiveDiff host state rows
    let m := m.apply diff
    return m.rows :: (← showResults host state m results)

/-- The rows shown for the first result and for each later one. -/
def liveRows (host : Host) (pkColumns : List Text) (first : List RowObject)
    (results : List (List RowObject)) : Option (List (List RowObject)) := do
  let state ← seedLiveDiffState host first pkColumns
  let m ← LiveRowsMaterializer.seed host pkColumns first
  return m.rows :: (← showResults host state m results)

/-! ### What is promised -/

/-- The same cells. -/
def SameRow (a b : RowObject) : Prop := ∀ column, a.cells.get? column = b.cells.get? column

/-- The same value: an object with the same content. -/
inductive SameValue (host : Host) : Cell → Cell → Prop
  | primitive (value : Primitive) : SameValue host (.primitive value) (.primitive value)
  | object {ref ref' : ℕ} (h : host.heap ref = host.heap ref') : SameValue host (.object ref) (.object ref')

/-- Two rows have the same values in some columns. -/
def SameIn (host : Host) (columns : Text → Prop) (a b : RowObject) : Prop :=
  ∀ column, columns column → Option.Rel (SameValue host) (a.cells.get? column) (b.cells.get? column)

/-- All cells are unchanged. -/
def Unchanged (host : Host) (a b : RowObject) : Prop := SameIn host (fun _ => True) a b

/-- The key tuples are pairwise different. -/
def DistinctKeys (host : Host) (pkColumns : List Text) (rows : List RowObject) : Prop :=
  rows.Pairwise fun a b => ¬ SameIn host (· ∈ pkColumns) a b

/-- An unchanged row is shown as the object it was shown as before. -/
def Keeps (host : Host) (before after : List RowObject × List RowObject) : Prop :=
  ∀ p ∈ before.1.zip before.2, ∀ q ∈ after.1.zip after.2, Unchanged host p.1 q.1 → q.2 = p.2

/-- Every result is shown as it is, and unchanged rows keep their objects. -/
structure Exact (host : Host) (results shown : List (List RowObject)) : Prop where
  rows : List.Forall₂ (List.Forall₂ SameRow) shown results
  kept : (results.zip shown).IsChain (Keeps host)

end LiveQueries.Objects
