/-
`enqueueBatch`: which rows a list of mutations adds to the journals.

The items are regrouped by table, each group passes the guards against what the local read model and
the journal say of its entities, and one INSERT a table takes its numbers from that journal's own
sequence.  Payloads and overlay rows are not modelled.  A mutation is named by the id that
`normalizeBatchItem` draws for it.
-/
import Pgxsinkit.Mutation.Journal
import Pgxsinkit.Lib.Groups

namespace Mutation

inductive MutationKind
  | create
  | update
  | delete
  deriving DecidableEq, Repr

/-- A normalized item; `nowUs` is the clock as it was normalized. -/
structure NormalizedItem where
  mutationId : ℕ
  tableKey : ℕ
  entityKey : ℕ
  kind : MutationKind
  blind : Bool
  nowUs : ℕ
  deriving DecidableEq, Repr

/-- The write unit of a batch; a `transaction` block names one, of either mode. -/
structure WriteUnit where
  id : ℕ
  pessimistic : Bool
  deriving DecidableEq, Repr

/-! ### The guards -/

/-- What the guards know of an entity: whether the local read model has a record of it, and the kind
and status of its latest journal row. -/
structure BatchEntityState where
  hasRecord : Bool
  latest : Option (MutationKind × MutationStatus)
  deriving DecidableEq, Repr

namespace BatchEntityState

def queuedForDeletion (state : BatchEntityState) : Bool :=
  state.latest.any fun latest => latest.1 = .delete && latest.2 ≠ .acked

/-- One item against the state of its entity: the state after it, or a refusal. -/
def take (routesPessimistic : Bool) (state : BatchEntityState) (item : NormalizedItem) :
    Option BatchEntityState :=
  match item.kind with
  | .create => if state.latest.isSome then none else some ⟨true, some (.create, .pending)⟩
  | .update =>
    if item.blind then
      if !routesPessimistic || state.queuedForDeletion then none
      else some { state with latest := some (.update, .pending) }
    else if !state.hasRecord || state.queuedForDeletion then none
    else some { state with latest := some (.update, .pending) }
  | .delete =>
    if !state.hasRecord || state.queuedForDeletion then none
    else some { state with latest := some (.delete, .pending) }

end BatchEntityState

/-- The items of one table against the states of its entities, which they move. -/
def accepts (routesPessimistic : Bool) (states : ℕ → BatchEntityState) :
    List NormalizedItem → Bool
  | [] => true
  | item :: rest =>
    match (states item.entityKey).take routesPessimistic item with
    | none => false
    | some state =>
      accepts routesPessimistic (Function.update states item.entityKey state) rest

/-! ### The rows -/

/-- The client: the tables whose writes are pessimistic of themselves. -/
structure EnqueueOptions where
  pessimisticTable : ℕ → Bool

/-- The store as a batch finds it: the journals, the next number of each, and what the reads say of
the entities of a table. -/
structure AuthoringStore where
  journal : List JournalRow
  sequence : ℕ → ℕ
  entities : ℕ → ℕ → BatchEntityState

/-- Each item with the number its journal's sequence hands it. -/
def number (sequence : ℕ → ℕ) : List NormalizedItem → List (NormalizedItem × ℕ)
  | [] => []
  | item :: rest =>
    (item, sequence item.tableKey) ::
      number (Function.update sequence item.tableKey (sequence item.tableKey + 1)) rest

/-- The unit of a table's rows: that of the batch, or the one a pessimistic table earns. -/
def effectiveUnit (options : EnqueueOptions) (unit : Option WriteUnit) (generated : ℕ → ℕ)
    (table : ℕ) : Option WriteUnit :=
  unit <|> if options.pessimisticTable table then some ⟨generated table, true⟩ else none

def NormalizedItem.isBlind (item : NormalizedItem) : Bool := item.kind = .update && item.blind

def NormalizedItem.journalRow (unit : Option WriteUnit) (entry : NormalizedItem × ℕ) :
    JournalRow where
  mutationId := entry.1.mutationId
  tableKey := entry.1.tableKey
  entityKey := entry.1.entityKey
  mutationSeq := entry.2
  status := .pending
  writeMode :=
    if entry.1.isBlind then some .pessimisticBlind
    else unit.map fun unit => if unit.pessimistic then .pessimistic else .optimistic
  writeUnit := unit.map WriteUnit.id
  attemptCount := 0
  nextRetryAtUs := some entry.1.nowUs
  enqueuedAtUs := entry.1.nowUs

/-- The rows of items that stand in some order, numbered in it. -/
def rowsOf (options : EnqueueOptions) (unit : Option WriteUnit) (generated sequence : ℕ → ℕ)
    (items : List NormalizedItem) : List JournalRow :=
  (number sequence items).map fun entry =>
    NormalizedItem.journalRow (effectiveUnit options unit generated entry.1.tableKey) entry

/-- The items of one table, in their order. -/
def batchGroup (items : List NormalizedItem) (table : ℕ) : List NormalizedItem :=
  items.filter fun item => item.tableKey = table

/-- The tables of the items, each where it first appears. -/
def batchTables (items : List NormalizedItem) : List ℕ :=
  (items.map NormalizedItem.tableKey).eraseDups

def routesPessimistic (options : EnqueueOptions) (unit : Option WriteUnit) (table : ℕ) : Bool :=
  (unit.map WriteUnit.pessimistic).getD (options.pessimisticTable table)

/-- The store with the batch enqueued, and the pessimistic units it tagged.  `generated` are the ids
of the units that pessimistic tables earn; a row whose key is taken fails the batch. -/
def enqueueBatch (options : EnqueueOptions) (generated : ℕ → ℕ) (unit : Option WriteUnit)
    (store : AuthoringStore) (items : List NormalizedItem) :
    Option (List JournalRow × List ℕ) :=
  let tables := batchTables items
  let journal := store.journal ++ tables.flatMap fun table =>
    rowsOf options unit generated store.sequence (batchGroup items table)
  if (tables.all fun table => accepts (routesPessimistic options unit table)
      (store.entities table) (batchGroup items table)) ∧ Keyed journal then
    some (journal, (tables.filterMap fun table =>
      ((effectiveUnit options unit generated table).filter (·.pessimistic)).map
        WriteUnit.id).eraseDups)
  else none

end Mutation
