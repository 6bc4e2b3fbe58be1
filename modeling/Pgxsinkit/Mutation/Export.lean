/-
The strict data export.

`performDataExport` of packages/client/src/export-data.ts with the dump of export-dump.ts, between the steps of the
mutation runtime: its reads and its CHECKPOINT are statements on the same connection, and the write path runs on.
The synced tables are not modelled; `landed` has the mutations whose echo they hold, which is what a reconcile
waits for.
-/
import Pgxsinkit.Mutation.Held

namespace Mutation

/-! ### Diagnostics -/

structure MutationDiagnostics where
  pendingCount : ℕ
  sendingCount : ℕ
  failedCount : ℕ
  quarantinedCount : ℕ
  conflictedCount : ℕ
  rejectedCount : ℕ
  ackedCount : ℕ
  deriving DecidableEq, Repr

namespace MutationDiagnostics

def zero : MutationDiagnostics := ⟨0, 0, 0, 0, 0, 0, 0⟩

/-- `count(*) filter (where status = …)` on one journal. -/
def filteredCount (store : LocalStore) (table : ℕ) (status : MutationStatus) : ℕ :=
  store.journal.countP fun row => row.tableKey = table && row.status = status

/-- The totals with one more journal. -/
def add (totals : MutationDiagnostics) (store : LocalStore) (table : ℕ) : MutationDiagnostics where
  pendingCount := totals.pendingCount + filteredCount store table .pending
  sendingCount := totals.sendingCount + filteredCount store table .sending
  failedCount := totals.failedCount + filteredCount store table .failed
  quarantinedCount := totals.quarantinedCount + filteredCount store table .quarantined
  conflictedCount := totals.conflictedCount + filteredCount store table .conflicted
  rejectedCount := totals.rejectedCount + filteredCount store table .rejected
  ackedCount := totals.ackedCount + filteredCount store table .acked

def hasNonDrainableRows (diagnostics : MutationDiagnostics) : Bool :=
  0 < diagnostics.failedCount || 0 < diagnostics.quarantinedCount || 0 < diagnostics.conflictedCount

def isFullyDrained (diagnostics : MutationDiagnostics) : Bool :=
  diagnostics.pendingCount = 0 && diagnostics.sendingCount = 0 && diagnostics.ackedCount = 0 &&
    !diagnostics.hasNonDrainableRows

end MutationDiagnostics

/-! ### The export -/

/-- What `dumpDataDir` reads: the committed store, with what the synced tables hold then. -/
structure DataDirImage where
  store : LocalStore
  landed : List ℕ
  refused : List ℕ

inductive DrainFailure
  | nonDrainableState
  | timeout
  deriving DecidableEq, Repr

inductive ExportError
  | drain (reason : DrainFailure) (diagnostics : MutationDiagnostics)
  /-- a statement, the dump or the clone failed -/
  | failed
  deriving DecidableEq, Repr

/-- Where the export waits. -/
inductive ExportStage
  | idle
  /-- in `readMutationStats` of the drain, the first time or after a flush: the tables it has counted, and those
  it has not -/
  | counting (polled : Bool) (counted todo : List ℕ) (totals : MutationDiagnostics)
  | flushing
  | sleeping
  | checkpointing
  | dumping
  /-- the clone boots and is dumped -/
  | cloning (image : DataDirImage)
  /-- in the last `readMutationStats` -/
  | reporting (image : DataDirImage) (todo : List ℕ) (totals : MutationDiagnostics)
  | resolved (image : DataDirImage) (diagnostics : MutationDiagnostics)
  | rejected (error : ExportError)

def ExportStage.image : ExportStage → Option DataDirImage
  | .cloning image | .reporting image _ _ | .resolved image _ => some image
  | _ => none

structure ExportWorld where
  runtime : Runtime
  stage : ExportStage
  /-- the mutations whose echo the synced tables hold -/
  landed : List ℕ
  /-- those whose conflicted or quarantined rows a reconcile or a discard deleted -/
  refused : List ℕ

inductive ExportEvent
  | runtime (event : RuntimeEvent)
  /-- the sync engine commits rows that reach these mutations -/
  | echo (mutationIds : List ℕ)
  | begin
  /-- the next count runs, or fails -/
  | count (fails : Bool)
  /-- the read is complete -/
  | decide (elapsedMs : ℕ)
  /-- the flush settles, one way or the other -/
  | flushed
  | woke
  | checkpoint (fails : Bool)
  | dump (fails : Bool)
  | clone (fails : Bool)

namespace ExportWorld

variable (options : RuntimeOptions) (drainJournal : Option ℕ) (w : ExportWorld)

/-- The statement on the journals that runs next. -/
def nextStatement : Option JournalStatement :=
  w.runtime.queue.head?.bind fun entry => w.runtime.statementOf entry.2

/-- The rows that a DELETE takes. -/
def deletes (statement : JournalStatement) : List JournalRow :=
  match statement with
  | .delete table status mutationIds =>
    w.runtime.conn.visible.journal.filter fun row => !JournalStatement.survives table status mutationIds row
  | _ => []

/-- A reconcile clears an acked row when its echo is there, and a blind update's at once. -/
def mayClear (row : JournalRow) : Bool :=
  row.status ≠ .acked || row.writeMode = some .pessimisticBlind || w.landed.contains row.mutationId

/-- A step of the runtime beside the export; the end of the process ends the export too. -/
def besides (event : RuntimeEvent) : Option ExportWorld :=
  match event with
  | .execute fails =>
    let deleted := (w.nextStatement.map w.deletes).getD []
    if deleted.all w.mayClear then
      (runtimeStep options w.runtime (.execute fails)).map fun runtime =>
        { w with
          runtime := runtime
          refused := w.refused ++ (deleted.filter (·.status ≠ .acked)).map JournalRow.mutationId }
    else none
  | .crash => (runtimeStep options w.runtime .crash).map fun runtime => { w with runtime, stage := .idle }
  | .boot c nowUs restore =>
    (runtimeStep options w.runtime (.boot c nowUs restore)).map fun runtime => { w with runtime, stage := .idle }
  | event => (runtimeStep options w.runtime event).map fun runtime => { w with runtime }

/-- A statement of the export: it reads, or fails where it stands. -/
def reads (fails : Bool) (stage : ExportStage) : ExportWorld :=
  let executed := w.runtime.execRead (fun _ => ⟨true, [], none⟩) fails
  { w with runtime := executed.1, stage := if executed.2.ok then stage else .rejected .failed }

/-- `readMutationStats` and what `drainJournalForExport` does with the totals. -/
def decided (polled : Bool) (totals : MutationDiagnostics) (elapsedMs : ℕ) : ExportStage :=
  if totals.hasNonDrainableRows then .rejected (.drain .nonDrainableState totals)
  else if totals.isFullyDrained then .checkpointing
  else if polled then
    if drainJournal.any (· ≤ elapsedMs) then .rejected (.drain .timeout totals) else .sleeping
  else .flushing

def exportStep : ExportEvent → Option ExportWorld
  | .runtime event => w.besides options event
  | .echo mutationIds => some { w with landed := w.landed ++ mutationIds }
  | .begin =>
    match w.stage with
    | .idle =>
      if w.runtime.booted then
        some { w with stage := if drainJournal.isNone then .checkpointing else .counting false [] options.tables .zero }
      else none
    | _ => none
  | .count fails =>
    match w.stage with
    | .counting polled counted (table :: todo) totals =>
      some (w.reads fails
        (.counting polled (counted ++ [table]) todo (totals.add w.runtime.conn.visible table)))
    | .reporting image (table :: todo) totals =>
      some (w.reads fails (.reporting image todo (totals.add w.runtime.conn.visible table)))
    | _ => none
  | .decide elapsedMs =>
    match w.stage with
    | .counting polled _ [] totals => some { w with stage := decided drainJournal polled totals elapsedMs }
    | .reporting image [] totals => some { w with stage := .resolved image totals }
    | _ => none
  | .flushed =>
    match w.stage with
    | .flushing => some { w with stage := .counting true [] options.tables .zero }
    | _ => none
  | .woke =>
    match w.stage with
    | .sleeping => some { w with stage := .flushing }
    | _ => none
  | .checkpoint fails =>
    match w.stage with
    | .checkpointing => some (w.reads fails .dumping)
    | _ => none
  | .dump fails =>
    match w.stage with
    | .dumping =>
      some { w with
        stage := if fails then .rejected .failed else .cloning ⟨w.runtime.conn.committed, w.landed, w.refused⟩ }
    | _ => none
  | .clone fails =>
    match w.stage with
    | .cloning image =>
      some { w with stage := if fails then .rejected .failed else .reporting image options.tables .zero }
    | _ => none

/-- A process that has just opened the store, some of whose mutations have landed. -/
def initial (store : LocalStore) (landed : List ℕ) : ExportWorld := ⟨Runtime.initial store, .idle, landed, []⟩

end ExportWorld

end Mutation
