/-
A local synced table as the database keeps it, and the statements of the appliers.

The rows are kept by their primary key.  A table has columns the stream does not carry, and may
have unique indexes the registry entry declares (`clientProjection.localIndexes`), over columns the
stream carries.  A statement checks them row by row, when it stores the row.
-/
import Pgxsinkit.Circuits.Change

namespace Circuits

open Checked

/-- A local table.  Its cells are values or NULL. -/
structure LocalTable (S V : Type) extends ApplyTarget S (Option V) where
  primaryKey : List S
  /-- the columns of the shape, which every upsert carries -/
  projected : List S
  uniqueIndexes : List (List S)
  primaryKey_ne : primaryKey ≠ []
  projected_nodup : projected.Nodup
  projected_sub : projected ⊆ columns
  primaryKey_sub : primaryKey ⊆ projected
  indexes_sub : ∀ index ∈ uniqueIndexes, index ⊆ projected

/-- The cells of a primary key, in the order of its columns. -/
abbrev RowKey (V : Type) := List (Option V)

/-- The stored rows, by primary key. -/
abbrev Rows (S V : Type) := OrdMap (RowKey V) (Row S (Option V))

/-- Why a statement fails. -/
inductive StatementError (S : Type)
  | applier (error : ApplyError S)
  | uniqueViolation

/-- A way to cut a batch into the rows of single statements. -/
structure BatchSplit (α : Type) where
  cut : List α → List (List α)
  flatten_cut : ∀ batch, (cut batch).flatten = batch

/-- `for (let i = 0; i < batch.length; i += size) batch.slice(i, i + size)` -/
def slicesOf {α : Type} (size : ℕ) (batch : List α) : List (List α) :=
  if size = 0 ∨ batch = [] then [] else batch.take size :: slicesOf size (batch.drop size)
  termination_by batch.length
  decreasing_by
    rename_i h
    rw [not_or] at h
    have hpos := List.length_pos_iff.mpr h.2
    rw [List.length_drop]
    omega

theorem flatten_slicesOf {α : Type} {size : ℕ} (h : 0 < size) (batch : List α) :
    (slicesOf size batch).flatten = batch := by
  induction hn : batch.length using Nat.strong_induction_on generalizing batch with
  | _ n ih =>
    rw [slicesOf]
    split
    · rename_i hnil
      rw [or_iff_right (by omega)] at hnil
      rw [hnil, List.flatten_nil]
    · rename_i hne
      rw [not_or] at hne
      have hpos := List.length_pos_iff.mpr hne.2
      have hlen : (batch.drop size).length < n := by
        rw [List.length_drop]
        omega
      rw [List.flatten_cons, ih _ hlen _ rfl, List.take_append_drop]

/-- The loops of the appliers, which cut after a number of rows. -/
def BatchSplit.every {α : Type} (size : ℕ) (h : 0 < size) : BatchSplit α where
  cut := slicesOf size
  flatten_cut := flatten_slicesOf h

section

variable {S V : Type} [LinearOrder S] [DecidableEq V]

namespace LocalTable

variable (target : LocalTable S V)

/-- The primary key of a stored row. -/
def keyOf (row : Row S (Option V)) : RowKey V := target.primaryKey.map row

/-- The primary key a value carries. -/
def valueKey (value : OrdMap S (Option V)) : RowKey V :=
  target.primaryKey.map fun column => (value.get? column).getD none

/-- `nonPkColumns` of `upsertConflictSpec` -/
def nonPkColumns (columns : List S) : List S :=
  columns.filter fun column => column ∉ target.primaryKey

/-- `DO UPDATE SET column = excluded.column`, for the columns outside the primary key. -/
def excludedRow (columns : List S) (old proposed : Row S (Option V)) : Row S (Option V) :=
  fun column => if column ∈ target.nonPkColumns columns then proposed column else old column

/-- Two rows a unique index does not take together; NULLs are distinct. -/
def Collide (index : List S) (row other : Row S (Option V)) : Prop :=
  ∀ column ∈ index, row column ≠ none ∧ row column = other column

instance (index : List S) (row other : Row S (Option V)) : Decidable (Collide index row other) :=
  inferInstanceAs (Decidable (∀ column ∈ index, _))

/-- Store a row under its key, every unique index permitting. -/
def store (rows : Rows S V) (key : RowKey V) (row : Row S (Option V)) :
    Except (StatementError S) (Rows S V) := do
  throwIf (∃ index ∈ target.uniqueIndexes, ∃ entry ∈ rows.entries,
    entry.1 ≠ key ∧ Collide index row entry.2) .uniqueViolation
  return rows.set key row

/-- One row of `INSERT … ON CONFLICT (pk) DO UPDATE`, or `DO NOTHING` for a pk-only table. -/
def upsertRow (columns : List S) (rows : Rows S V) (value : OrdMap S (Option V)) :
    Except (StatementError S) (Rows S V) :=
  let proposed := target.insertedRow value
  let key := target.keyOf proposed
  match rows.get? key with
  | none => target.store rows key proposed
  | some old =>
    if target.nonPkColumns columns = [] then .ok rows
    else target.store rows key (target.excludedRow columns old proposed)

/-- `applyMessageToTable` -/
def applyMessageToTable (rows : Rows S V) (message : SyncChange S (Option V)) :
    Except (StatementError S) (Rows S V) :=
  match message.operation with
  | .upsert => do
    (toDriverRow target.toApplyTarget [message]).mapError .applier
    target.upsertRow message.value.keys rows message.value
  | .delete => .ok (rows.delete (target.valueKey message.value))

/-- The changes one by one. -/
def applyEach (messages : List (SyncChange S (Option V))) (rows : Rows S V) :
    Except (StatementError S) (Rows S V) :=
  foldChecked target.applyMessageToTable rows messages

/-- `DELETE … USING json_to_recordset(…)`, a statement for each batch. -/
def applyBulkDeletesToTable (split : BatchSplit (SyncChange S (Option V)))
    (messages : List (SyncChange S (Option V))) (rows : Rows S V) : Rows S V :=
  (split.cut messages).foldl
    (fun rows batch =>
      rows.filter fun key _ => !(batch.map fun message => target.valueKey message.value).contains key)
    rows

/-- One `INSERT … VALUES … ON CONFLICT` statement. -/
def upsertStatement (columns : List S) (rows : Rows S V)
    (batch : List (SyncChange S (Option V))) : Except (StatementError S) (Rows S V) := do
  (toDriverRow target.toApplyTarget batch).mapError .applier
  -- DO UPDATE does not take a row twice
  throwIf (target.nonPkColumns columns ≠ [] ∧
    ¬ (batch.map fun message => target.valueKey message.value).Nodup) (.applier .secondTime)
  foldChecked (fun rows message => target.upsertRow columns rows message.value) rows batch

def applyUpsertsToTable (split : BatchSplit (SyncChange S (Option V)))
    (messages : List (SyncChange S (Option V))) (rows : Rows S V) :
    Except (StatementError S) (Rows S V) :=
  match messages with
  | [] => .ok rows
  | first :: _ => do
    (assertUniformColumnSet first.value.keys messages).mapError .applier
    foldChecked (target.upsertStatement first.value.keys) rows (split.cut messages)

/-- The folded batch, deletes before upserts. -/
def applyFolded (deleteSplit upsertSplit : BatchSplit (SyncChange S (Option V)))
    (messages : List (SyncChange S (Option V))) (rows : Rows S V) :
    Except (StatementError S) (Rows S V) :=
  let folded := foldChangeBatch messages
  target.applyUpsertsToTable upsertSplit folded.upserts
    (target.applyBulkDeletesToTable deleteSplit folded.deletes rows)

/-! ### Table states and batches -/

/-- A state the database can be in: the rows stand under their keys, and the indexes hold. -/
structure Valid (rows : Rows S V) : Prop where
  keyed : ∀ key row, rows.get? key = some row → target.keyOf row = key
  unique : ∀ index ∈ target.uniqueIndexes, ∀ key row key' row', rows.get? key = some row →
    rows.get? key' = some row' → key ≠ key' → ¬ Collide index row row'

/-- A batch of the stream: an upsert carries the complete projected row, a delete the primary key,
which has no NULL, and the key of a change is its primary key, stringified. -/
structure WireBatch (messages : List (SyncChange S (Option V))) : Prop where
  full : ∀ m ∈ messages, m.operation = .upsert → m.value.keys.Perm target.projected
  carried : ∀ m ∈ messages, target.primaryKey ⊆ m.value.keys
  notNull : ∀ m ∈ messages, none ∉ target.valueKey m.value
  key_iff : ∀ m ∈ messages, ∀ m' ∈ messages,
    m.key = m'.key ↔ target.valueKey m.value = target.valueKey m'.value

end LocalTable

end

end Circuits
