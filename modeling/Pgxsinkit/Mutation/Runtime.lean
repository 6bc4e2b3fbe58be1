/-
The mutation runtime: its calls, their statements and one connection.

Every call is a program that issues one statement at a time.  The statements wait in the
order they were issued, `execute` runs the first of them, and `resume` runs a call from the
reply to its next await, where it reads and writes the memory of the runtime.  A flush is a
`sender`, a flushUnit another; the reconcile and the settle at the end of a pass are calls
of their own here, so that they may also come at any other time.
-/
import Pgxsinkit.Lib.Connection
import Pgxsinkit.Lib.Runs
import Pgxsinkit.Mutation.Journal

namespace Mutation

open Connection

structure RuntimeOptions where
  /-- the writable tables -/
  tables : List ℕ
  maxMutationAttempts : ℕ
  flushBatchSize : ℕ

/-! ### Statements and replies -/

inductive Sql
  | begin
  | commit
  | rollback
  | statement (statement : JournalStatement)
  /-- `insertMutationsBulk`; the database numbers the rows -/
  | insertMutations (table : ℕ) (rows : List JournalRow)
  | readPending (tables : List ℕ) (nowUs batchSize : ℕ)
  | readUnit (unitId : ℕ)
  | readMarker
  deriving DecidableEq, Repr

structure SqlReply where
  ok : Bool
  rows : List JournalRow
  marker : Option Bool
  deriving DecidableEq, Repr

/-! ### Calls -/

/-- The two senders: a flush of some tables, and the flush of one write unit. -/
inductive Route
  | batch (tables : List ℕ)
  | unit (unitId : ℕ)
  deriving DecidableEq, Repr

inductive SenderStage
  /-- in `flushQueue`, behind another flush -/
  | waiting
  | reading
  /-- about to mark the rows of the first of these tables -/
  | entering (rows : List JournalRow) (todo : List ℕ)
  /-- inside the mark-sending span of a table: the marker write is issued, or the UPDATE -/
  | marking (rows : List JournalRow) (table : ℕ) (todo : List ℕ) (marker : Bool)
  | authorizing (rows : List JournalRow)
  | inFlight (rows : List JournalRow)
  /-- the UPDATE of a table is issued -/
  | settling (rows : List JournalRow) (updates : List MutationStatusUpdate) (table : ℕ)
      (todo : List ℕ)
  deriving DecidableEq, Repr

inductive Program
  | sender (route : Route) (stage : SenderStage)
  /-- statements in order, the first of them issued; `opened` once the first was a BEGIN
  that succeeded, and `boot` for the end of a boot recovery, a restore or not -/
  | script (boot : Option Bool) (todo : List Sql) (opened : Bool)
  | bootReading
  | settle
  deriving DecidableEq, Repr

structure Call where
  program : Program
  reply : Option SqlReply
  deriving DecidableEq, Repr

/-! ### The runtime -/

structure Runtime where
  conn : Conn LocalStore
  /-- what took effect in the transaction that is open -/
  block : List JournalStatement
  /-- the sequences of `mutation_seq`, which no rollback takes back -/
  sequences : ℕ → ℕ
  /-- the next of the ids that `randomUUID` has not given yet -/
  nextMutationId : ℕ
  queue : List (ℕ × Sql)
  calls : ℕ → Option Call
  recoveryMarkerDirty : Bool
  /-- the open mark-sending spans; `markSendingInFlight` is their number -/
  markSendingSpans : List ℕ
  flushQueue : List ℕ
  booted : Bool
  /-- the requests that have left, in order -/
  requests : List (List JournalRow)
  /-- the mutations that the completed restore boots found in the store -/
  recovered : List ℕ

namespace Runtime

variable (options : RuntimeOptions) (w : Runtime) (c : ℕ)

def put (program : Program) : Runtime :=
  { w with calls := Function.update w.calls c (some ⟨program, none⟩) }

/-- `await db.query(…)` -/
def issue (sql : Sql) (program : Program) : Runtime :=
  { w.put c program with queue := w.queue ++ [(c, sql)] }

def finish : Runtime :=
  { w with calls := Function.update w.calls c none, flushQueue := w.flushQueue.erase c }

/-! ### Senders -/

def readStatement (nowUs : ℕ) : Route → Sql
  | .batch tables => .readPending tables nowUs options.flushBatchSize
  | .unit unitId => .readUnit unitId

/-- The tables of the rows, by first appearance. -/
def tablesOf (rows : List JournalRow) : List ℕ := (rows.map JournalRow.tableKey).eraseDups

def markSendingUpdates (rows : List JournalRow) (table : ℕ) : List MutationStatusUpdate :=
  (rows.filter (·.tableKey = table)).map fun row =>
    ⟨row.mutationId, .sending, row.attemptCount + 1, none⟩

def markSendingUpdate (rows : List JournalRow) (table : ℕ) : Sql :=
  .statement (.statusUpdates table (markSendingUpdates rows table))

/-- `markSendingScope.enter` and the marker decision of `applyMutationStatusUpdates`. -/
def enterMarkSending (route : Route) (rows : List JournalRow) : List ℕ → Runtime
  | [] => w.put c (.sender route (.authorizing rows))
  | table :: todo =>
    let entered := { w with markSendingSpans := c :: w.markSendingSpans }
    if w.recoveryMarkerDirty then
      entered.issue c (markSendingUpdate rows table)
        (.sender route (.marking rows table todo false))
    else
      entered.issue c (.statement (.writeRecoveryRequired true))
        (.sender route (.marking rows table todo true))

/-- `markSendingScope.exit` -/
def exitMarkSending : Runtime := { w with markSendingSpans := w.markSendingSpans.erase c }

def settleUpdates (updates : List MutationStatusUpdate) (rows : List JournalRow) (table : ℕ) :
    List MutationStatusUpdate :=
  updates.filter fun update =>
    (rows.filter (·.tableKey = table)).any (·.mutationId = update.mutationId)

/-- The next UPDATE with the results; after the last one a flush reads again. -/
def settleNext (nowUs : ℕ) (route : Route) (rows : List JournalRow)
    (updates : List MutationStatusUpdate) : List ℕ → Runtime
  | [] =>
    match route with
    | .batch _ => w.issue c (readStatement options nowUs route) (.sender route .reading)
    | .unit _ => w.finish c
  | table :: todo =>
    w.issue c (.statement (.statusUpdates table (settleUpdates updates rows table)))
      (.sender route (.settling rows updates table todo))

def outcomeUpdate (retryAtUs : ℕ → ℕ) (route : Route) (response : WriteResponse)
    (row : JournalRow) : MutationStatusUpdate :=
  let outcome := match route with
    | .batch _ => batchOutcome options.maxMutationAttempts retryAtUs response row
    | .unit _ => unitOutcome options.maxMutationAttempts retryAtUs response row
  ⟨row.mutationId, outcome.1, row.attemptCount + 1, outcome.2⟩

/-- A sender continues from the reply to its statement. -/
def resumeSender (nowUs : ℕ) (route : Route) (stage : SenderStage) (reply : SqlReply) :
    Option Runtime :=
  match stage with
  | .reading =>
    if reply.ok && !reply.rows.isEmpty then
      some (w.put c (.sender route (.entering reply.rows (tablesOf reply.rows))))
    else some (w.finish c)
  | .marking rows table todo true =>
    if reply.ok then
      some ({ w with recoveryMarkerDirty := true }.issue c (markSendingUpdate rows table)
        (.sender route (.marking rows table todo false)))
    else some ((w.exitMarkSending c).finish c)
  | .marking rows _ todo false =>
    if reply.ok then
      some ((w.exitMarkSending c).put c (.sender route (.entering rows todo)))
    else some ((w.exitMarkSending c).finish c)
  | .settling rows updates _ todo =>
    if reply.ok then some (w.settleNext options c nowUs route rows updates todo)
    else some (w.finish c)
  | _ => none

/-! ### Scripts -/

/-- The end of a script.  A boot recovery that went through opens the runtime. -/
def finishScript (boot : Option Bool) : Runtime :=
  match boot with
  | none => w.finish c
  | some restore =>
    let booted := { w.finish c with booted := true, recoveryMarkerDirty := false }
    if restore then
      { booted with
        recovered := w.recovered ++ w.conn.committed.journal.map JournalRow.mutationId
        requests := [] }
    else booted

def runScript (boot : Option Bool) (opened : Bool) : List Sql → Runtime
  | [] => w.finishScript c boot
  | sql :: todo => w.issue c sql (.script boot (sql :: todo) opened)

/-- After an error the transaction the script opened is rolled back, and the call rejects;
a boot recovery that fails leaves the runtime closed. -/
def resumeScript (boot : Option Bool) (todo : List Sql) (opened : Bool) (reply : SqlReply) :
    Runtime :=
  if reply.ok then
    if todo = [.rollback] then w.finish c
    else w.runScript c boot (opened || todo.head? = some .begin) todo.tail
  else if opened then w.issue c .rollback (.script boot [.rollback] false)
  else w.finish c

/-- `BEGIN … COMMIT` around the statements. -/
def inTransaction (statements : List Sql) : List Sql := .begin :: (statements ++ [.commit])

def recoverSending (nowUs : ℕ) : List Sql :=
  options.tables.map fun table => .statement (.recoverSending table nowUs)

def quarantineRecovered : List Sql :=
  options.tables.map fun table => .statement (.quarantineRecovered table)

/-- `runBootRecovery`, after the marker was read. -/
def resumeBoot (nowUs : ℕ) (reply : SqlReply) : Runtime :=
  if reply.ok then
    match reply.marker with
    | some false => w.finishScript c (some false)
    | none =>
      w.runScript c (some false) false
        (recoverSending options nowUs ++ [.statement (.writeRecoveryRequired false)])
    | some true =>
      w.runScript c (some false) false
        (inTransaction (recoverSending options nowUs ++ [.statement .clearRecoveryMarkerIfSettled]))
  else w.finish c

/-- `settleRecoveryMarker`, up to its await. -/
def settleRecoveryMarker : Runtime :=
  if w.markSendingSpans.isEmpty then
    { w with recoveryMarkerDirty := false }.issue c (.statement .clearRecoveryMarkerIfSettled)
      .settle
  else w

/-! ### The connection -/

/-- The rows of an INSERT: new ids, numbers from the sequence of their table, and pending. -/
def numbered (nextId nextSeq table : ℕ) (rows : List JournalRow) : List JournalRow :=
  rows.mapIdx fun i row =>
    { row with
      mutationId := nextId + i
      tableKey := table
      mutationSeq := nextSeq + i
      status := .pending
      attemptCount := 0 }

/-- The statement on the journals that a statement of a call comes to. -/
def statementOf : Sql → Option JournalStatement
  | .statement statement => some statement
  | .insertMutations table rows =>
    some (.insert (numbered w.nextMutationId (w.sequences table) table rows))
  | _ => none

/-- A statement on the connection; `fails` makes it fail where it stands. -/
def execStatement (statement : JournalStatement) (fails : Bool) : Runtime × SqlReply :=
  let reply := w.conn.exec fun store => if fails then none else statement.exec store
  ({ w with
      conn := reply.conn
      block := if reply.ok && w.conn.tx.isSome then w.block ++ [statement] else w.block },
    ⟨reply.ok, [], none⟩)

/-- A read: the reply carries what the query gives on what the connection sees. -/
def execRead (read : LocalStore → SqlReply) (fails : Bool) : Runtime × SqlReply :=
  let reply := w.conn.exec fun store => if fails then none else some store
  ({ w with conn := reply.conn }, if reply.ok then read w.conn.visible else ⟨false, [], none⟩)

def execSql (fails : Bool) : Sql → Runtime × SqlReply
  | .begin =>
    if fails then (w, ⟨false, [], none⟩)
    else
      ({ w with
          conn := w.conn.begin.conn
          block := if w.conn.tx.isSome then w.block else [] }, ⟨w.conn.begin.ok, [], none⟩)
  | .commit =>
    if fails then ({ w with conn := w.conn.rollback, block := [] }, ⟨false, [], none⟩)
    else ({ w with conn := w.conn.commit.conn, block := [] }, ⟨true, [], none⟩)
  | .rollback =>
    if fails then (w, ⟨false, [], none⟩)
    else ({ w with conn := w.conn.rollback, block := [] }, ⟨true, [], none⟩)
  | .statement statement => w.execStatement statement fails
  | .insertMutations table rows =>
    { w with
      sequences := Function.update w.sequences table (w.sequences table + rows.length)
      nextMutationId := w.nextMutationId + rows.length
      }.execStatement (.insert (numbered w.nextMutationId (w.sequences table) table rows)) fails
  | .readPending tables nowUs batchSize =>
    w.execRead (fun store => ⟨true, readPendingBatchRows tables nowUs batchSize store.journal, none⟩)
      fails
  | .readUnit unitId =>
    w.execRead (fun store => ⟨true, readUnitPendingRows unitId store.journal, none⟩) fails
  | .readMarker => w.execRead (fun store => ⟨true, [], store.recoveryRequired⟩) fails

/-- Hands a reply to the call that waits for it. -/
def answer (reply : SqlReply) : Runtime :=
  match w.calls c with
  | none => w
  | some call =>
    { w with calls := Function.update w.calls c (some { call with reply := some reply }) }

/-! ### Steps -/

end Runtime

inductive CallSpec
  | flush (tables : List ℕ)
  | flushUnit (unitId : ℕ)
  /-- an enqueue: the inserts of its tables, in one transaction -/
  | enqueue (inserts : List (ℕ × List JournalRow))
  | retryFailed (tables : List ℕ)
  | recoverSending (tables : List ℕ)
  | quarantineRecovered (tables : List ℕ)
  /-- a reconcile of a table: what it retires and clears, in one transaction -/
  | reconcile (table : ℕ) (conflicted acked : List ℕ)
  /-- a discard: rows of one entity, in one of the two terminal statuses -/
  | discard (table : ℕ) (quarantined : Bool) (mutationIds : List ℕ)
  | settle
  deriving DecidableEq, Repr

/-- `getTableContext` knows the tables. -/
def CallSpec.isKnown (options : RuntimeOptions) : CallSpec → Bool
  | .enqueue inserts => inserts.all fun insert => options.tables.contains insert.1
  | _ => true

inductive RuntimeEvent
  | call (c : ℕ) (spec : CallSpec) (nowUs : ℕ)
  /-- the first issued statement runs, or fails where it stands -/
  | execute (fails : Bool)
  | resume (c nowUs : ℕ)
  /-- the request of a call leaves, also a second time after a 401 or 403 -/
  | send (c : ℕ)
  /-- the response to a request, or the failure to make one -/
  | respond (c nowUs : ℕ) (response : WriteResponse) (retryAtUs : ℕ → ℕ)
  /-- the process ends, and another one opens the store -/
  | crash
  | boot (c nowUs : ℕ) (restore : Bool)

namespace Runtime

variable (options : RuntimeOptions) (w : Runtime)

/-- A call begins and runs to its first await. -/
def beginCall (c nowUs : ℕ) : CallSpec → Runtime
  | .flush tables =>
    { w.put c (.sender (.batch tables) .waiting) with flushQueue := w.flushQueue ++ [c] }
  | .flushUnit unitId => w.issue c (.readUnit unitId) (.sender (.unit unitId) .reading)
  | .enqueue inserts =>
    w.runScript c none false
      (inTransaction (inserts.map fun insert => .insertMutations insert.1 insert.2))
  | .retryFailed tables =>
    w.runScript c none false (tables.map fun table => .statement (.retryFailed table nowUs))
  | .recoverSending tables =>
    w.runScript c none false (tables.map fun table => .statement (.recoverSending table nowUs))
  | .quarantineRecovered tables =>
    w.runScript c none false (tables.map fun table => .statement (.quarantineRecovered table))
  | .reconcile table conflicted acked =>
    w.runScript c none false
      (inTransaction [.statement (.delete table .conflicted conflicted),
        .statement (.delete table .acked acked)])
  | .discard table quarantined mutationIds =>
    w.runScript c none false
      (inTransaction [.statement
        (.delete table (if quarantined then .quarantined else .conflicted) mutationIds)])
  | .settle => w.settleRecoveryMarker c

/-- A call continues from its reply, or from where it waits without a statement. -/
def resumeCall (c nowUs : ℕ) (call : Call) : Option Runtime :=
  match call.program, call.reply with
  | .sender route .waiting, none =>
    if w.flushQueue.head? = some c then
      some (w.issue c (readStatement options nowUs route) (.sender route .reading))
    else none
  | .sender route (.entering rows todo), none => some (w.enterMarkSending c route rows todo)
  | .sender route stage, some reply => w.resumeSender options c nowUs route stage reply
  | .script boot todo opened, some reply => some (w.resumeScript c boot todo opened reply)
  | .bootReading, some reply => some (w.resumeBoot options c nowUs reply)
  | .settle, some _ => some (w.finish c)
  | _, _ => none

def sendCall (c : ℕ) (call : Call) : Option Runtime :=
  match call.program with
  | .sender route (.authorizing rows) =>
    some { w.put c (.sender route (.inFlight rows)) with requests := w.requests ++ [rows] }
  | .sender _ (.inFlight rows) => some { w with requests := w.requests ++ [rows] }
  | _ => none

def respondCall (c nowUs : ℕ) (response : WriteResponse) (retryAtUs : ℕ → ℕ) (call : Call) :
    Option Runtime :=
  match call.program with
  | .sender route (.authorizing rows) =>
    some (w.settleNext options c nowUs route rows
      (rows.map (outcomeUpdate options retryAtUs route .failure)) (tablesOf rows))
  | .sender route (.inFlight rows) =>
    some (w.settleNext options c nowUs route rows
      (rows.map (outcomeUpdate options retryAtUs route response)) (tablesOf rows))
  | _ => none

/-- What a process that opens the store finds: what was committed, and an empty memory. -/
def crashed : Runtime :=
  { w with
    conn := w.conn.rollback
    block := []
    queue := []
    calls := fun _ => none
    recoveryMarkerDirty := false
    markSendingSpans := []
    flushQueue := []
    booted := false }

/-- `runBootRecovery` of a new process, up to its first await; nothing else runs before it. -/
def bootCall (c nowUs : ℕ) (restore : Bool) : Runtime :=
  if restore then
    w.runScript c (some true) false
      (recoverSending options nowUs ++ quarantineRecovered options ++
        [.statement .clearRecoveryMarkerIfSettled])
  else w.issue c .readMarker .bootReading

end Runtime

def runtimeStep (options : RuntimeOptions) (w : Runtime) : RuntimeEvent → Option Runtime
  | .call c spec nowUs =>
    if w.booted && (w.calls c).isNone && spec.isKnown options then some (w.beginCall c nowUs spec)
    else none
  | .execute fails =>
    match w.queue with
    | [] => none
    | (c, sql) :: queue =>
      let executed := { w with queue := queue }.execSql fails sql
      some (executed.1.answer c executed.2)
  | .resume c nowUs => (w.calls c).bind fun call => w.resumeCall options c nowUs call
  | .send c => (w.calls c).bind fun call => w.sendCall c call
  | .respond c nowUs response retryAtUs =>
    (w.calls c).bind fun call => w.respondCall options c nowUs response retryAtUs call
  | .crash => some w.crashed
  | .boot c nowUs restore =>
    if w.booted then none else some (w.crashed.bootCall options c nowUs restore)

/-- A number above those of the rows. -/
def above (number : JournalRow → ℕ) (rows : List JournalRow) : ℕ :=
  (rows.map number).foldr max 0 + 1

/-- A process that has just opened the store. -/
def Runtime.initial (store : LocalStore) : Runtime :=
  { conn := ⟨store, none⟩
    block := []
    sequences := fun table => above JournalRow.mutationSeq (store.journal.filter (·.tableKey = table))
    nextMutationId := above JournalRow.mutationId store.journal
    queue := []
    calls := fun _ => none
    recoveryMarkerDirty := false
    markSendingSpans := []
    flushQueue := []
    booted := false
    requests := []
    recovered := [] }

end Mutation
