/-
`live.incrementalQuery`: the change batch of two results, and its fold into the row map.

`live.changes` keeps the previous result in a state table and lets the database compare it with
the current one.  The client gets the changes only, and puts the rows in order by following, from
the start, the link of each row to the row before it.
-/
import Pgxsinkit.Lib.OrdMap

namespace LiveQueries

/-! ### Results and their columns -/

/-- A row of the query, as the database has it; a cell may be NULL. -/
structure ResultRow (C K V : Type) where
  key : K
  cells : C → V

/-- Which key cell of a run is read. -/
structure KeyCell where
  refresh : ℕ
  change : ℕ
  after : Bool

/-- The columns of the query besides its key. -/
structure LiveColumns (C K V J : Type) where
  names : List C
  complete : ∀ column, column ∈ names
  null : V
  /-- the equality of the key's type, by which the statements join -/
  keyEq : K → K → Bool
  keyEq_refl : ∀ key, keyEq key key = true
  /-- IS DISTINCT FROM -/
  distinct : V → V → Bool
  /-- the key as the client gets it; where it is an object, every cell read is another one -/
  read : KeyCell → K → J

/-- A name in `__changed_columns__`. -/
inductive ColumnName (C : Type)
  | column (c : C)
  | after
  deriving DecidableEq

/-- A row of the diff statement. -/
inductive RowChange (C K V : Type)
  | insert (key : K) (after : Option K) (cells : C → V)
  | delete (key : K)
  | update (key : K) (after : Option K) (cells : C → V) (changedColumns : List (ColumnName C))

inductive Change (C K V : Type)
  | reset
  | row (change : RowChange C K V)

section

variable {C K V J : Type}

def RowChange.key : RowChange C K V → K
  | .insert key _ _ => key
  | .delete key => key
  | .update key _ _ _ => key

/-! ### The diff statement -/

/-- `SELECT LAG(key) OVER () AS __after__, *` -/
def lag : Option K → List (ResultRow C K V) → List (Option K × ResultRow C K V)
  | _, [] => []
  | before, row :: rows => (before, row) :: lag (some row.key) rows

namespace LiveColumns

variable (columns : LiveColumns C K V J)

/-- `ON curr.key = prev.key` -/
def joins (a b : Option K × ResultRow C K V) : Bool := columns.keyEq a.2.key b.2.key

def afterDistinct : Option K → Option K → Bool
  | some a, some b => !columns.keyEq a b
  | none, none => false
  | _, _ => true

def isDistinct (curr prev : Option K × ResultRow C K V) : ColumnName C → Bool
  | .column c => columns.distinct (curr.2.cells c) (prev.2.cells c)
  | .after => columns.afterDistinct curr.1 prev.1

/-- The columns but the key. -/
def compared : List (ColumnName C) := columns.names.map ColumnName.column ++ [ColumnName.after]

/-- `__changed_columns__` -/
def changedColumns (curr prev : Option K × ResultRow C K V) : List (ColumnName C) :=
  columns.compared.filter (columns.isDistinct curr prev)

/-- `curr IS NOT DISTINCT FROM prev`, of two rows with one key. -/
def notDistinct (curr prev : Option K × ResultRow C K V) : Bool :=
  columns.compared.all fun name => !columns.isDistinct curr prev name

def insertRows (prev curr : List (Option K × ResultRow C K V)) : List (RowChange C K V) :=
  (curr.filter fun row => !prev.any (columns.joins row)).map fun row =>
    .insert row.2.key row.1 row.2.cells

def deleteRows (prev curr : List (Option K × ResultRow C K V)) : List (RowChange C K V) :=
  (prev.filter fun row => !curr.any (columns.joins row)).map fun row => .delete row.2.key

/-- The columns that did not change are NULL. -/
def updateRow (curr prev : Option K × ResultRow C K V) : RowChange C K V :=
  .update curr.2.key (if columns.isDistinct curr prev .after then curr.1 else none)
    (fun c => if columns.isDistinct curr prev (.column c) then curr.2.cells c else columns.null)
    (columns.changedColumns curr prev)

def updateRows (prev curr : List (Option K × ResultRow C K V)) : List (RowChange C K V) :=
  curr.flatMap fun row =>
    (prev.filter fun old => columns.joins row old && !columns.notDistinct row old).map
      (columns.updateRow row)

/-- The rows of `EXECUTE live_query_…_diff…`: UNION ALL keeps the three parts in order, and a part
has the order its join gives it. -/
structure Diff (prev curr : List (ResultRow C K V)) where
  inserted : List (RowChange C K V)
  deleted : List (RowChange C K V)
  updated : List (RowChange C K V)
  inserted_perm : inserted.Perm (columns.insertRows (lag none prev) (lag none curr))
  deleted_perm : deleted.Perm (columns.deleteRows (lag none prev) (lag none curr))
  updated_perm : updated.Perm (columns.updateRows (lag none prev) (lag none curr))

def Diff.rows {columns : LiveColumns C K V J} {prev curr : List (ResultRow C K V)}
    (diff : columns.Diff prev curr) : List (RowChange C K V) :=
  diff.inserted ++ diff.deleted ++ diff.updated

/-- A change as the client reads it. -/
def readChange (refresh i : ℕ) : RowChange C K V → RowChange C J V
  | .insert key after cells =>
    .insert (columns.read ⟨refresh, i, false⟩ key) (after.map (columns.read ⟨refresh, i, true⟩)) cells
  | .delete key => .delete (columns.read ⟨refresh, i, false⟩ key)
  | .update key after cells changed =>
    .update (columns.read ⟨refresh, i, false⟩ key) (after.map (columns.read ⟨refresh, i, true⟩)) cells
      changed

def readRows (refresh : ℕ) (rows : List (RowChange C K V)) : List (RowChange C J V) :=
  rows.mapIdx (columns.readChange refresh)

end LiveColumns

/-! ### The row map -/

/-- An object of `rowsMap`, by property; a property may be absent. -/
structure RowObject (C V J : Type) where
  key : Option J
  after : Option (Option J)
  cells : C → Option V

def RowObject.empty : RowObject C V J := ⟨none, none, fun _ => none⟩

/-- A row of the list that is handed out, without `__after__`. -/
structure CleanRow (C V J : Type) where
  key : Option J
  cells : C → Option V

def RowObject.clean (obj : RowObject C V J) : CleanRow C V J := ⟨obj.key, obj.cells⟩

/-- The maps of the client; the predecessor of the first row is null. -/
structure LinkedRows (C V J : Type) where
  rowsMap : OrdMap J (RowObject C V J)
  afterMap : OrdMap (Option J) J

def LinkedRows.empty : LinkedRows C V J := ⟨.empty, .empty⟩

variable [DecidableEq C] [DecidableEq J]

/-- One name of `changedColumns`. -/
def assignColumn (key : J) (after : Option J) (cells : C → V)
    (state : RowObject C V J × OrdMap (Option J) J) :
    ColumnName C → RowObject C V J × OrdMap (Option J) J
  | .column c =>
    ({ state.1 with cells := fun c' => if c' = c then some (cells c) else state.1.cells c' }, state.2)
  | .after => ({ state.1 with after := some after }, state.2.set after key)

namespace LinkedRows

variable (linked : LinkedRows C V J)

/-- One change of a batch. -/
def applyRow : RowChange C J V → LinkedRows C V J
  | .insert key after cells =>
    ⟨linked.rowsMap.set key ⟨some key, some after, fun c => some (cells c)⟩,
      linked.afterMap.set after key⟩
  | .delete key =>
    ⟨linked.rowsMap.delete key,
      match linked.rowsMap.get? key with
      | some ⟨_, some (some after), _⟩ => linked.afterMap.delete (some after)
      | _ => linked.afterMap⟩
  | .update key after cells changed =>
    let assigned := changed.foldl (assignColumn key after cells)
      ((linked.rowsMap.get? key).getD .empty, linked.afterMap)
    ⟨linked.rowsMap.set key assigned.1, assigned.2⟩

def apply : Change C J V → LinkedRows C V J
  | .reset => .empty
  | .row change => linked.applyRow change

/-- The rows in order, at most `n` of them. -/
def follow : ℕ → Option J → List (CleanRow C V J)
  | 0, _ => []
  | n + 1, lastKey =>
    match linked.afterMap.get? lastKey with
    | none => []
    | some nextKey =>
      match linked.rowsMap.get? nextKey with
      | none => []
      | some obj => obj.clean :: follow n (some nextKey)

end LinkedRows

/-! ### Refreshes -/

/-- A live query: what its state table holds, the client's maps, and the rows handed out last. -/
structure IncrementalQuery (C K V J : Type) where
  state : List (ResultRow C K V)
  linked : LinkedRows C V J
  rows : List (CleanRow C V J)
  refreshes : ℕ

namespace IncrementalQuery

def initial : IncrementalQuery C K V J := ⟨[], .empty, [], 0⟩

/-- What the state table of the previous result holds; a reset makes it anew. -/
def previous (q : IncrementalQuery C K V J) (reset : Bool) : List (ResultRow C K V) :=
  if reset then [] else q.state

def refresh (columns : LiveColumns C K V J) (q : IncrementalQuery C K V J) (reset : Bool)
    (curr : List (ResultRow C K V)) (diff : columns.Diff (q.previous reset) curr) :
    IncrementalQuery C K V J :=
  let changes := (if reset then [Change.reset] else []) ++
    (columns.readRows q.refreshes diff.rows).map .row
  let linked := changes.foldl LinkedRows.apply q.linked
  ⟨curr, linked, linked.follow linked.rowsMap.size none, q.refreshes + 1⟩

end IncrementalQuery

end

end LiveQueries
