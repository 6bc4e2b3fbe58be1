/-
The sync engine: one consistency group of shape streams, applied and persisted together.

`commitShapes` is the body of the transaction of `commitHeld`, `commitHeld` its attempts,
`deliver` one delivery through the inbox, the gate and the commit.  Deliveries are handed
over one at a time and the next waits for the commit of the last, so a delivery and its
commit are one step.  `step` adds engine restarts over the same store; the streams, the
barrier and the faults of a commit attempt are the environment's.
-/
import Pgxsinkit.Lib.Runs
import Pgxsinkit.Circuits.StreamInbox

namespace Circuits

open Checked

/-! ### The group -/

inductive InsertMethod
  | copy
  | json
  | insert
  deriving DecidableEq, Repr

/-- A shape of the group: its table, its backfill tier, and the scoped clear that replaces
the `TRUNCATE`, given by the rows it deletes. -/
structure ShapeSpec (S V : Type) where
  tableKey : S
  insertMethod : InsertMethod
  onMustRefetch : Option (Row S V → Bool)

/-- What a group's subscriptions have in common; the stream urls are granted afresh. -/
structure SyncGroup (S V : Type) where
  shapes : OrdMap S (ShapeSpec S V)
  targets : S → ApplyTarget S V
  maxCommitRetries : Nat
  /-- `STREAM_START`, the offset of a shape that has none -/
  streamStart : S

/-- `ShapeSubscriptionState`: the stream a shape was reading and how far. -/
structure ShapeCursor (S : Type) where
  handle : S
  offset : S

/-- The local store: the synced tables and the group's `shape_metadata`. -/
structure Store (S V : Type) where
  tables : S → Table S V
  shapeMetadata : Option (S → Option (ShapeCursor S))

structure ConvergenceBarrier where
  pendingFlips : Nat
  flipFailures : Nat

/-- One `syncCircuitsShapes` in memory. -/
structure Engine (S V : Type) where
  streamUrls : S → S
  inbox : StreamInbox S V
  useBulkBackfill : S → Bool
  truncateNeeded : S → Bool
  degraded : Bool

section

variable {S V : Type} [LinearOrder S]

namespace SyncGroup

variable (group : SyncGroup S V)

def shapeNames : List S := group.shapes.keys

/-- The shape is the only one on its table. -/
def isSoleOccupant (tableKey : S) : Bool :=
  (group.shapes.entries.filter fun e => e.2.tableKey = tableKey).length < 2

/-- `resolveTableSharing`: shapes that share a table each bring a scoped clear. -/
def sharesTablesSoundly : Bool :=
  group.shapes.entries.all fun e =>
    group.isSoleOccupant e.2.tableKey || e.2.onMustRefetch.isSome

end SyncGroup

/-! ### The body of the transaction, for one shape -/

/-- After the scoped clear of a sole occupant no row may be left. -/
def assertClearLeftNoResidue (group : SyncGroup S V) (shapeName : S) (spec : ShapeSpec S V)
    (cleared : Table S V) : Except (ApplyError S) (Table S V) :=
  if group.isSoleOccupant spec.tableKey && cleared.size ≠ 0 then .error (.residue shapeName)
  else .ok cleared

/-- The clear of a re-snapshot: the scoped clear with its residue check, or `TRUNCATE`. -/
def clearShape (group : SyncGroup S V) (shapeName : S) (spec : ShapeSpec S V)
    (table : Table S V) : Except (ApplyError S) (Table S V) :=
  match spec.onMustRefetch with
  | none => .ok .empty
  | some scope =>
    assertClearLeftNoResidue group shapeName spec (table.filter fun _ row => !scope row)

/-- COPY cannot be mixed with a following apply of the same key: the last net row goes back
to the rest. -/
def handBackLast (backfill remainder : List (SyncChange S V)) :
    List (SyncChange S V) × List (SyncChange S V) :=
  match backfill.getLast? with
  | none => (backfill, remainder)
  | some last => (backfill.dropLast, last :: remainder)

/-- The net rows of the leading run of upserts, and the rest. -/
def splitBackfill (method : InsertMethod) (changes : List (SyncChange S V)) :
    List (SyncChange S V) × List (SyncChange S V) :=
  let leadingUpserts := changes.takeWhile fun change => change.operation = .upsert
  let remainder := changes.dropWhile fun change => change.operation = .upsert
  let backfill := (foldChangeBatch leadingUpserts).upserts
  if method = .copy then handBackLast backfill remainder else (backfill, remainder)

def bulkAppliers (target : ApplyTarget S V) (shapeName : S) (messages : List (SyncChange S V))
    (table : Table S V) : InsertMethod → Except (ApplyError S) (Table S V)
  | .json => applyMessagesToTableWithJson target shapeName messages table
  | .copy => applyMessagesToTableWithCopy target shapeName messages table
  | .insert => applyInsertsToTable target shapeName messages table

def applyBackfill (target : ApplyTarget S V) (shapeName : S) (method : InsertMethod)
    (messages : List (SyncChange S V)) (table : Table S V) :
    Except (ApplyError S) (Table S V) :=
  match target.applyMode with
  | .upsert =>
    if method = .insert then applyUpsertsToTable target messages table
    else applyUpsertsToTableWithJson target messages table
  | .insert => bulkAppliers target shapeName messages table method

/-- Fold to one net operation a key, then `DELETE` → `UPSERT`. -/
def applyFolded (target : ApplyTarget S V) (changes : List (SyncChange S V))
    (table : Table S V) : Except (ApplyError S) (Table S V) :=
  let folded := foldChangeBatch changes
  applyUpsertsToTable target folded.upserts (applyBulkDeletesToTable folded.deletes table)

/-- The bulk path, on the backfill and the rest; the result says whether the flag stays on. -/
def applyBulk (target : ApplyTarget S V) (shapeName : S) (method : InsertMethod)
    (split : List (SyncChange S V) × List (SyncChange S V)) (table : Table S V) :
    Bool × Except (ApplyError S) (Table S V) :=
  if split.1.isEmpty then
    (true, applyFolded target split.2 table)
  else
    match applyBackfill target shapeName method split.1 table with
    | .error e => (true, .error e)
    | .ok loaded => (false, applyFolded target split.2 loaded)

/-- One shape's held changes, with its `useBulkBackfill` flag.  The flag is switched off
where a bulk load went through, and nowhere else. -/
def applyShape (target : ApplyTarget S V) (shapeName : S) (method : InsertMethod) (bulk : Bool)
    (changes : List (SyncChange S V)) (table : Table S V) :
    Bool × Except (ApplyError S) (Table S V) :=
  if bulk && !changes.isEmpty then
    applyBulk target shapeName method (splitBackfill method changes) table
  else
    (bulk, applyFolded target changes table)

/-! ### `commitHeld` -/

/-- The tables, when the transaction goes on, and the flags, which no rollback restores. -/
abbrev CommitState (S V : Type) := (S → Bool) × Except (ApplyError S) (S → Table S V)

/-- One shape in the transaction: its clear, when it re-snapshots, and its held changes. -/
def commitShape (group : SyncGroup S V) (shapeName : S) (spec : ShapeSpec S V) (truncate : Bool)
    (bulk : Bool) (held : List (SyncChange S V)) (table : Table S V) :
    Bool × Except (ApplyError S) (Table S V) :=
  let cleared := if truncate then clearShape group shapeName spec table else .ok table
  match cleared with
  | .error e => (bulk, .error e)
  | .ok table =>
    applyShape (group.targets spec.tableKey) shapeName spec.insertMethod bulk held table

/-- The loop of the transaction over the shapes.  `held` is what was peeked. -/
def commitShapes (group : SyncGroup S V) (shapesToTruncate : S → Bool)
    (held : S → List (SyncChange S V)) :
    List (S × ShapeSpec S V) → (S → Bool) → (S → Table S V) → CommitState S V
  | [], bulk, tables => (bulk, .ok tables)
  | (shapeName, spec) :: shapes, bulk, tables =>
    let applied := commitShape group shapeName spec (shapesToTruncate shapeName) (bulk shapeName)
      (held shapeName) (tables spec.tableKey)
    let bulk' := Function.update bulk shapeName applied.1
    match applied.2 with
    | .error e => (bulk', .error e)
    | .ok table =>
      commitShapes group shapesToTruncate held shapes bulk'
        (Function.update tables spec.tableKey table)

/-- The cursors of a commit: every shape at the last offset held for it. -/
def pendingCursors (group : SyncGroup S V) (engine : Engine S V) (shapeName : S) :
    Option (ShapeCursor S) :=
  if group.shapeNames.contains shapeName then
    some ⟨engine.streamUrls shapeName,
      (engine.inbox.pendingOffsets shapeName).getD group.streamStart⟩
  else
    none

/-- One attempt.  `fault` cuts it off after that many shapes, before anything commits. -/
def runCommit (group : SyncGroup S V) (engine : Engine S V) (store : Store S V)
    (fault : Option Nat) : CommitState S V :=
  match fault with
  | none =>
    commitShapes group engine.truncateNeeded engine.inbox.peekAll group.shapes.entries
      engine.useBulkBackfill store.tables
  | some after =>
    let cut := commitShapes group engine.truncateNeeded engine.inbox.peekAll
      (group.shapes.entries.take after) engine.useBulkBackfill store.tables
    (cut.1, cut.2.bind fun _ => .error .lost)

/-- What a `commitHeld` leaves: the engine, the store, and the errors of its attempts. -/
structure CommitOutcome (S V : Type) where
  engine : Engine S V
  store : Store S V
  errors : List (ApplyError S)

/-- `ackAll` and the cleared `truncateNeeded`, after the transaction committed. -/
def Engine.committed (engine : Engine S V) (bulk : S → Bool) : Engine S V :=
  { engine with
    inbox := engine.inbox.ackAll engine.inbox.epochs
    useBulkBackfill := bulk
    truncateNeeded := fun _ => false }

/-- The attempts of `commitHeld`, `remaining` more of them: the first that goes through
commits, and when the last fails the engine is degraded. -/
def commitHeld (group : SyncGroup S V) :
    Nat → List (Option Nat) → Engine S V → Store S V → CommitOutcome S V
  | 0, _, engine, store => ⟨{ engine with degraded := true }, store, []⟩
  | remaining + 1, faults, engine, store =>
    match runCommit group engine store (faults.head?.getD none) with
    | (bulk, .ok tables) =>
      ⟨engine.committed bulk,
        { tables := tables, shapeMetadata := some (pendingCursors group engine) }, []⟩
    | (bulk, .error e) =>
      let rest := commitHeld group remaining faults.tail
        { engine with useBulkBackfill := bulk } store
      { rest with errors := e :: rest.errors }

/-! ### Deliveries -/

/-- `gateOpen`: every shape drained, and the barrier once per alignment.  The result says
whether to commit; `barrier` is `none` when it could not be read. -/
def gateOpen (group : SyncGroup S V) (engine : Engine S V) (barrier : Option ConvergenceBarrier) :
    Engine S V × Bool :=
  if !engine.inbox.isGroupUpToDate group.shapeNames then (engine, false)
  else if !engine.inbox.needsAlignment then (engine, true)
  else if !engine.inbox.everyShapeReported group.shapeNames then (engine, false)
  else
    match barrier with
    | none => (engine, false)
    | some b =>
      if 0 < b.flipFailures then ({ engine with degraded := true }, false)
      else if 0 < b.pendingFlips then (engine, false)
      else ({ engine with inbox := engine.inbox.markAligned }, true)

/-- One delivery: into the inbox, then `enqueueCommit`. -/
def deliver (group : SyncGroup S V) (engine : Engine S V) (store : Store S V) (shapeName : S)
    (changes : List (SyncChange S V)) (offset : S) (upToDate : Bool)
    (barrier : Option ConvergenceBarrier) (faults : List (Option Nat)) : CommitOutcome S V :=
  let ingested :=
    { engine with inbox := engine.inbox.ingestBatch shapeName changes offset upToDate }
  if ingested.degraded then ⟨ingested, store, []⟩
  else
    let gate := gateOpen group ingested barrier
    if gate.2 then commitHeld group (max group.maxCommitRetries 1) faults gate.1 store
    else ⟨gate.1, store, []⟩

/-! ### Subscribing -/

/-- A shape resumes when its persisted cursor is on the stream it is granted now. -/
def isResumable (store : Store S V) (streamUrls : S → S) (shapeName : S) : Bool :=
  match store.shapeMetadata.bind fun cursors => cursors shapeName with
  | some cursor => cursor.handle = streamUrls shapeName
  | none => false

def subscribe (group : SyncGroup S V) (store : Store S V) (streamUrls : S → S) : Engine S V :=
  { streamUrls
    inbox := .new
    useBulkBackfill := fun shapeName =>
      !isResumable store streamUrls shapeName &&
        ((group.shapes.get? shapeName).map ShapeSpec.insertMethod) ≠ some .insert
    truncateNeeded := fun shapeName =>
      !isResumable store streamUrls shapeName && store.shapeMetadata.isSome
    degraded := false }

/-! ### Runs -/

/-- A shape stream: its changes, the offset after the first `n` of them, and the position
the server reads an offset as. -/
structure ShapeStream (S V : Type) [LinearOrder S] where
  changes : List (SyncChange S V)
  offset : Nat → S
  position : S → Nat
  offset_strictMono : StrictMono offset
  position_offset : ∀ n, position (offset n) = n

/-- A stream whose offsets are its positions. -/
def ShapeStream.numbered (changes : List (SyncChange ℕ V)) : ShapeStream ℕ V :=
  ⟨changes, id, id, strictMono_id, fun _ => rfl⟩

/-- The part of a stream that a delivery from `start` to `stop` carries. -/
def ShapeStream.slice (stream : ShapeStream S V) (start stop : Nat) : List (SyncChange S V) :=
  (stream.changes.take stop).drop start

/-- A system of one group, its store and the streams its urls name. `reader` is how far the
current subscription has read a shape's stream, `errors` every error of a commit attempt. -/
structure World (S V : Type) where
  store : Store S V
  engine : Option (Engine S V)
  reader : S → Nat
  errors : List (ApplyError S)

inductive Event (S : Type)
  /-- a subscribe is granted these stream urls -/
  | subscribe (streamUrls : S → S)
  /-- a response of a shape's stream, from position `start` to `stop` -/
  | deliver (shapeName : S) (start stop : Nat) (upToDate : Bool)
      (barrier : Option ConvergenceBarrier) (faults : List (Option Nat))
  /-- the engine is unsubscribed, or the process ends -/
  | stop

/-- Where a fresh subscription starts to read: the persisted offset of a resumed shape, the
start of the stream of any other. -/
def resumePosition (streams : S → ShapeStream S V) (store : Store S V) (streamUrls : S → S)
    (shapeName : S) : Nat :=
  if isResumable store streamUrls shapeName then
    match store.shapeMetadata.bind fun cursors => cursors shapeName with
    | some cursor => (streams (streamUrls shapeName)).position cursor.offset
    | none => 0
  else 0

/-- What a stream may deliver: the next part, from at or before where the reader is, or a
part that is applied already. -/
def mayDeliver (stream : ShapeStream S V) (engine : Engine S V) (shapeName : S)
    (at_ start stop : Nat) : Bool :=
  stop ≤ stream.changes.length &&
    ((start ≤ at_ && at_ ≤ stop) || engine.inbox.isApplied shapeName (stream.offset stop))

def step (group : SyncGroup S V) (streams : S → ShapeStream S V) (w : World S V) :
    Event S → Option (World S V)
  | .subscribe streamUrls =>
    if w.engine.isNone && group.sharesTablesSoundly then
      some { w with
        engine := some (subscribe group w.store streamUrls)
        reader := resumePosition streams w.store streamUrls }
    else none
  | .stop => some { w with engine := none }
  | .deliver shapeName start stop upToDate barrier faults =>
    match w.engine with
    | none => none
    | some engine =>
      let stream := streams (engine.streamUrls shapeName)
      if group.shapeNames.contains shapeName &&
          mayDeliver stream engine shapeName (w.reader shapeName) start stop then
        let outcome := deliver group engine w.store shapeName (stream.slice start stop)
          (stream.offset stop) upToDate barrier faults
        some {
          store := outcome.store
          engine := some outcome.engine
          reader := Function.update w.reader shapeName (max (w.reader shapeName) stop)
          errors := w.errors ++ outcome.errors }
      else none

/-- An empty store that no group has subscribed on. -/
def World.initial : World S V :=
  { store := { tables := fun _ => .empty, shapeMetadata := none }
    engine := none
    reader := fun _ => 0
    errors := [] }

end

end Circuits
