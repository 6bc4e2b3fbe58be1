/-
Streamed changes, the tables they are applied to, and the appliers of the read path.

The strings of the source (shape names, table keys, stream urls, row keys, columns and
offsets) are one linearly ordered type `S`; `V` is the type of a cell.  A table maps a
row key to a row: the stream key is the engine's rendering of the primary key the value
carries, so the appliers' match on the primary key columns is a match on the key.
-/
import Pgxsinkit.Lib.Checked
import Pgxsinkit.Lib.OrdMap

namespace Circuits

open Checked

/-! ### Changes, rows and tables -/

/-- The two verbs of the wire. -/
inductive SyncOperation
  | upsert
  | delete
  deriving DecidableEq, Repr

/-- A change as `envelopeToChange` builds it; the value is keyed by column name. -/
structure SyncChange (S V : Type) where
  key : S
  value : OrdMap S V
  operation : SyncOperation

inductive ApplyMode
  | insert
  | upsert
  deriving DecidableEq, Repr

/-- What the appliers read of a shape's table: the column names, in order, the values the
table gives to columns a statement does not name, and the apply mode of the entry. -/
structure ApplyTarget (S V : Type) where
  columns : List S
  columnDefault : S → V
  applyMode : ApplyMode

/-- A stored row, by column. -/
abbrev Row (S V : Type) := S → V

/-- A synced table, by row key. -/
abbrev Table (S V : Type) := OrdMap S (Row S V)

/-- Why a commit attempt fails. -/
inductive ApplyError (S : Type)
  /-- `assertUniformColumnSet` -/
  | mixedColumns
  /-- `toDriverRow` -/
  | unknownColumn
  /-- a plain INSERT or COPY of a primary key the table already holds -/
  | duplicateKey (shape key : S)
  /-- one ON CONFLICT statement that names a row twice -/
  | secondTime
  /-- `assertClearLeftNoResidue` -/
  | residue (shape : S)
  /-- the transaction is lost for a reason outside the engine -/
  | lost
  deriving DecidableEq, Repr

section

variable {S V : Type} [LinearOrder S]

namespace ApplyTarget

variable (target : ApplyTarget S V)

/-- The row an INSERT of the value stores: the columns it does not name take their default. -/
def insertedRow (value : OrdMap S V) : Row S V :=
  fun column => (value.get? column).getD (target.columnDefault column)

end ApplyTarget

/-- `ON CONFLICT DO UPDATE SET column = excluded.column`, for the columns of the value. -/
def updatedRow (old : Row S V) (value : OrdMap S V) : Row S V :=
  fun column => (value.get? column).getD (old column)

/-- The row an upsert leaves under its key. -/
def upsertedRow (target : ApplyTarget S V) (old : Option (Row S V)) (value : OrdMap S V) :
    Row S V :=
  match old with
  | none => target.insertedRow value
  | some row => updatedRow row value

/-- `applyMessageToTable`: one change, as one statement of its own. -/
def applyMessage (target : ApplyTarget S V) (table : Table S V) (change : SyncChange S V) :
    Table S V :=
  match change.operation with
  | .upsert => table.set change.key (upsertedRow target (table.get? change.key) change.value)
  | .delete => table.delete change.key

/-- Ordered row-by-row application, the reference of the read path. -/
def applyOrdered (target : ApplyTarget S V) (changes : List (SyncChange S V))
    (table : Table S V) : Table S V :=
  changes.foldl (applyMessage target) table

/-! ### The bulk appliers

Each cuts a long batch into several statements of the same transaction, at a parameter or
row count; the rows and the order are the same, so the model runs the batch as one. -/

/-- The rows of a plain INSERT or of COPY: a primary key that is there fails the statement. -/
def insertRows (target : ApplyTarget S V) (shape : S) :
    List (SyncChange S V) → Table S V → Except (ApplyError S) (Table S V)
  | [], table => .ok table
  | message :: messages, table =>
    match table.get? message.key with
    | some _ => .error (.duplicateKey shape message.key)
    | none =>
      insertRows target shape messages
        (table.set message.key (target.insertedRow message.value))

/-- The rows of `INSERT … ON CONFLICT (pk) DO UPDATE`. -/
def upsertRows (target : ApplyTarget S V) (messages : List (SyncChange S V))
    (table : Table S V) : Except (ApplyError S) (Table S V) :=
  if (messages.map SyncChange.key).Nodup then
    .ok (messages.foldl
      (fun table message =>
        table.set message.key (upsertedRow target (table.get? message.key) message.value)) table)
  else
    .error .secondTime

/-- Every row carries exactly the columns of the statement. -/
def assertUniformColumnSet (columns : List S) (messages : List (SyncChange S V)) :
    Except (ApplyError S) Unit :=
  if messages.all fun message =>
      message.value.keys.length == columns.length &&
        message.value.keys.all (columns.contains ·) then
    .ok ()
  else
    .error .mixedColumns

/-- `toDriverRow`: every column of the row is a column of the local table. -/
def toDriverRow (target : ApplyTarget S V) (messages : List (SyncChange S V)) :
    Except (ApplyError S) Unit :=
  if messages.all fun message => message.value.keys.all (target.columns.contains ·) then
    .ok ()
  else
    .error .unknownColumn

/-- The columns of the first row, in the order of the table's. -/
def jsonRecordsetColumns (target : ApplyTarget S V) (first : SyncChange S V) : List S :=
  target.columns.filter (first.value.keys.contains ·)

def applyInsertsToTable (target : ApplyTarget S V) (shape : S) (messages : List (SyncChange S V))
    (table : Table S V) : Except (ApplyError S) (Table S V) :=
  match messages with
  | [] => .ok table
  | first :: _ => do
    assertUniformColumnSet first.value.keys messages
    insertRows target shape messages table

def applyMessagesToTableWithJson (target : ApplyTarget S V) (shape : S)
    (messages : List (SyncChange S V)) (table : Table S V) :
    Except (ApplyError S) (Table S V) :=
  match messages with
  | [] => .ok table
  | first :: _ => do
    assertUniformColumnSet (jsonRecordsetColumns target first) messages
    insertRows target shape messages table

def applyMessagesToTableWithCopy (target : ApplyTarget S V) (shape : S)
    (messages : List (SyncChange S V)) (table : Table S V) :
    Except (ApplyError S) (Table S V) :=
  match messages with
  | [] => .ok table
  | first :: _ => do
    assertUniformColumnSet first.value.keys messages
    insertRows target shape messages table

def applyUpsertsToTable (target : ApplyTarget S V) (messages : List (SyncChange S V))
    (table : Table S V) : Except (ApplyError S) (Table S V) :=
  match messages with
  | [] => .ok table
  | first :: _ => do
    assertUniformColumnSet first.value.keys messages
    toDriverRow target messages
    upsertRows target messages table

def applyUpsertsToTableWithJson (target : ApplyTarget S V) (messages : List (SyncChange S V))
    (table : Table S V) : Except (ApplyError S) (Table S V) :=
  match messages with
  | [] => .ok table
  | first :: _ => do
    assertUniformColumnSet (jsonRecordsetColumns target first) messages
    upsertRows target messages table

/-- `DELETE … USING json_to_recordset(…)` on the primary keys. -/
def applyBulkDeletesToTable (messages : List (SyncChange S V)) (table : Table S V) : Table S V :=
  table.filter fun key _ => !(messages.map SyncChange.key).contains key

/-! ### `foldChangeBatch` -/

structure FoldedShapeBatch (S V : Type) where
  deletes : List (SyncChange S V)
  upserts : List (SyncChange S V)

/-- `groups`: the changes of each key, in stream order, by first appearance of the key. -/
def groupByKey (messages : List (SyncChange S V)) : OrdMap S (List (SyncChange S V)) :=
  messages.foldl
    (fun groups message =>
      groups.set message.key ((groups.get? message.key).getD [] ++ [message])) .empty

/-- `Object.assign({}, …)` over the values of the segment. -/
def mergeValues (segment : List (SyncChange S V)) : OrdMap S V :=
  segment.foldl (fun row message => message.value.entries.foldl (fun r e => r.set e.1 e.2) row)
    .empty

/-- `ops.slice(lastDeleteIndex + 1)`: the changes after the last delete. -/
def segmentAfterDelete (ops : List (SyncChange S V)) : List (SyncChange S V) :=
  (ops.reverse.takeWhile fun message => message.operation ≠ .delete).reverse

/-- `ops[lastDeleteIndex]` -/
def lastDelete (ops : List (SyncChange S V)) : Option (SyncChange S V) :=
  ops.reverse.find? fun message => message.operation = .delete

/-- The net upsert of a key: the template is the last change of its segment. -/
def foldedUpsert (ops : List (SyncChange S V)) : Option (SyncChange S V) :=
  (segmentAfterDelete ops).getLast?.map fun template =>
    ⟨template.key, mergeValues (segmentAfterDelete ops), .upsert⟩

/-- `foldKey`: a trailing delete is one DELETE, a re-created key DELETE and UPSERT. -/
def foldKey (ops : List (SyncChange S V)) (folded : FoldedShapeBatch S V) :
    FoldedShapeBatch S V :=
  ⟨folded.deletes ++ (lastDelete ops).toList, folded.upserts ++ (foldedUpsert ops).toList⟩

def foldChangeBatch (messages : List (SyncChange S V)) : FoldedShapeBatch S V :=
  (groupByKey messages).entries.foldl (fun folded group => foldKey group.2 folded) ⟨[], []⟩

end

end Circuits
