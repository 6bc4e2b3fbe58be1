/-
What a step of the mutation runtime can do.

`execSql_effect` lists what a statement does to the connection and to the open block, and
`CallStep` how a call begins and continues; `step_cases` says that a step is one of these, a
crash or a boot.  The invariants of the runtime are proved from them, without the functions
of the model.
-/
import Pgxsinkit.Mutation.Runtime

namespace Mutation

open Connection

/-- The rows that a query selects. -/
def Sql.selects (store : LocalStore) : Sql → List JournalRow
  | .readPending tables nowUs batchSize =>
    readPendingBatchRows tables nowUs batchSize store.journal
  | .readUnit unitId => readUnitPendingRows unitId store.journal
  | _ => []

theorem eligible_of_selects {store : LocalStore} {sql : Sql} {row : JournalRow}
    (h : row ∈ sql.selects store) : row ∈ store.journal ∧ row.status.isEligible = true := by
  cases sql with
  | readPending tables nowUs batchSize =>
    have h := List.mem_of_mem_take h
    rw [List.mem_insertionSort, List.mem_filter] at h
    refine ⟨h.1, ?_⟩
    have h := h.2
    simp only [isSendEligible, Bool.and_eq_true] at h
    exact h.2.1.1.1
  | readUnit unitId =>
    simp only [Sql.selects, readUnitPendingRows] at h
    rw [List.mem_insertionSort, List.mem_filter] at h
    exact ⟨h.1, (Bool.and_eq_true _ _ ▸ h.2).2⟩
  | _ => cases h

namespace Runtime

variable {options : RuntimeOptions} {w w' : Runtime} {c : ℕ}

/-! ### Statements -/

/-- The statement ends a block and takes back what it did. -/
def RollsBack (w : Runtime) (fails : Bool) : Sql → Prop
  | .commit => fails = true ∨ ∃ tx, w.conn.tx = some tx ∧ tx.failed = true
  | .rollback => fails = false
  | _ => False

/-- What a statement does to the connection and to the block that is open. -/
inductive Effect (w : Runtime) (fails : Bool) (sql : Sql) (w' : Runtime) (ok : Bool) : Prop
  /-- nothing that is visible or committed changes: a read, a BEGIN, a failure -/
  | nothing (hv : w'.conn.visible = w.conn.visible) (hc : w'.conn.committed = w.conn.committed)
      (ht : w'.conn.tx.isSome = w.conn.tx.isSome ∨ sql = .begin)
      (hb : w'.block = w.block ∨ w.conn.tx = none ∧ w'.block = [])
      (hok : ok = true → w.statementOf sql = none)
  | commit (hsql : sql = .commit) (hc : w'.conn = ⟨w.conn.visible, none⟩) (hb : w'.block = [])
  | rollback (hr : w.RollsBack fails sql) (hc : w'.conn = w.conn.rollback) (hb : w'.block = [])
  | alone {statement : JournalStatement} {store : LocalStore}
      (hs : w.statementOf sql = some statement) (he : statement.exec w.conn.visible = some store)
      (ht : w.conn.tx = none) (hc : w'.conn = ⟨store, none⟩) (hb : w'.block = w.block)
      (hok : ok = true)
  | inBlock {statement : JournalStatement} {store : LocalStore}
      (hs : w.statementOf sql = some statement) (he : statement.exec w.conn.visible = some store)
      (ht : w.conn.tx.isSome) (hc : w'.conn = ⟨w.conn.committed, some ⟨store, false⟩⟩)
      (hb : w'.block = w.block ++ [statement]) (hok : ok = true)

theorem execStatement_effect {sql : Sql} {statement : JournalStatement} {fails : Bool}
    (v : Runtime) (hs : w.statementOf sql = some statement) (hconn : v.conn = w.conn)
    (hblock : v.block = w.block) :
    Effect w fails sql (v.execStatement statement fails).1 (v.execStatement statement fails).2.ok := by
  unfold execStatement
  simp only [hconn, hblock]
  rcases exec_cases w.conn fun store => if fails then none else statement.exec store with
    ⟨store, he, ⟨ht, hx⟩ | ⟨ht, hx⟩⟩ | ⟨hok, hv, hc, ht⟩
  · cases fails with
    | true => simp at he
    | false =>
      simp only [Bool.false_eq_true, if_false] at he hx
      exact .alone hs he ht (by simp [hx]) (by simp [hx, ht]) (by simp [hx])
  · cases fails with
    | true => simp at he
    | false =>
      simp only [Bool.false_eq_true, if_false] at he hx
      exact .inBlock hs he ht (by simp [hx]) (by simp [hx, ht]) (by simp [hx])
  · exact .nothing hv hc (.inl ht) (.inl (by simp [hok])) (by simp [hok])

theorem execRead_effect {sql : Sql} (read : LocalStore → SqlReply) (fails : Bool)
    (hs : w.statementOf sql = none) (ok : Bool) : Effect w fails sql (w.execRead read fails).1 ok := by
  unfold execRead
  rcases exec_cases w.conn fun store => if fails then none else some store with
    ⟨store, he, ⟨ht, hx⟩ | ⟨ht, hx⟩⟩ | ⟨-, hv, hc, ht⟩
  · have hstore : store = w.conn.visible := by
      cases fails <;> simp_all
    subst hstore
    exact .nothing (by simp [hx, Conn.visible]) (by simp [hx, ht]) (.inl (by simp [hx, ht]))
      (.inl rfl) fun _ => hs
  · have hstore : store = w.conn.visible := by
      cases fails <;> simp_all
    subst hstore
    exact .nothing (by simp [hx, Conn.visible]) (by simp [hx]) (.inl (by simp [hx, ht]))
      (.inl rfl) fun _ => hs
  · exact .nothing hv hc (.inl ht) (.inl rfl) fun _ => hs

theorem execSql_effect (w : Runtime) (fails : Bool) (sql : Sql) :
    Effect w fails sql (w.execSql fails sql).1 (w.execSql fails sql).2.ok := by
  cases sql with
  | begin =>
    cases fails with
    | true => exact .nothing rfl rfl (.inl rfl) (.inl rfl) fun _ => rfl
    | false =>
      refine .nothing begin_visible begin_committed (.inr rfl) ?_ fun _ => rfl
      cases ht : w.conn.tx with
      | none => exact .inr ⟨rfl, by simp [execSql, ht]⟩
      | some tx => exact .inl (by simp [execSql, ht])
  | commit =>
    cases fails with
    | true => exact .rollback (.inl rfl) rfl rfl
    | false =>
      rcases commit_cases (c := w.conn) with h | ⟨hf, h⟩
      · exact .commit rfl h rfl
      · exact .rollback (.inr hf) h rfl
  | rollback =>
    cases fails with
    | true => exact .nothing rfl rfl (.inl rfl) (.inl rfl) fun _ => rfl
    | false => exact .rollback rfl rfl rfl
  | statement statement => exact execStatement_effect w rfl rfl rfl
  | insertMutations table rows => exact execStatement_effect _ rfl rfl rfl
  | readPending tables nowUs batchSize => exact execRead_effect _ fails rfl _
  | readUnit unitId => exact execRead_effect _ fails rfl _
  | readMarker => exact execRead_effect _ fails rfl _

/-- What the committed and the visible store have in common outlives a statement that keeps
it. -/
theorem Effect.keeps {P : LocalStore → Prop} {fails ok : Bool} {sql : Sql}
    (h : Effect w fails sql w' ok) (hc : P w.conn.committed) (hv : P w.conn.visible)
    (hs : ∀ statement store, w.statementOf sql = some statement →
      statement.exec w.conn.visible = some store → P store) :
    P w'.conn.committed ∧ P w'.conn.visible := by
  cases h with
  | nothing hv' hc' => exact ⟨hc' ▸ hc, hv' ▸ hv⟩
  | commit _ hconn => exact ⟨hconn ▸ hv, hconn ▸ hv⟩
  | rollback _ hconn => exact ⟨hconn ▸ hc, hconn ▸ hc⟩
  | alone hst he _ hconn => exact ⟨hconn ▸ hs _ _ hst he, hconn ▸ hs _ _ hst he⟩
  | inBlock hst he _ hconn => exact ⟨hconn ▸ hc, hconn ▸ hs _ _ hst he⟩

/-- The rest of the runtime: a statement leaves it alone, but for the numbers that an INSERT
draws. -/
structure SameMemory (w w' : Runtime) : Prop where
  queue : w'.queue = w.queue
  calls : w'.calls = w.calls
  dirty : w'.recoveryMarkerDirty = w.recoveryMarkerDirty
  spans : w'.markSendingSpans = w.markSendingSpans
  flushQueue : w'.flushQueue = w.flushQueue
  booted : w'.booted = w.booted
  requests : w'.requests = w.requests
  recovered : w'.recovered = w.recovered

theorem execSql_memory (w : Runtime) (fails : Bool) (sql : Sql) :
    SameMemory w (w.execSql fails sql).1 := by
  cases sql with
  | begin => cases fails <;> exact ⟨rfl, rfl, rfl, rfl, rfl, rfl, rfl, rfl⟩
  | commit => cases fails <;> exact ⟨rfl, rfl, rfl, rfl, rfl, rfl, rfl, rfl⟩
  | rollback => cases fails <;> exact ⟨rfl, rfl, rfl, rfl, rfl, rfl, rfl, rfl⟩
  | _ => exact ⟨rfl, rfl, rfl, rfl, rfl, rfl, rfl, rfl⟩

theorem execRead_reply (w : Runtime) (read : LocalStore → SqlReply) (fails : Bool) :
    (w.execRead read fails).2 = read w.conn.visible ∨
      (w.execRead read fails).2 = ⟨false, [], none⟩ := ite_eq_or_eq ..

/-- A read answers what its query selects, or nothing. -/
theorem execSql_rows (w : Runtime) (fails : Bool) (sql : Sql) :
    (w.execSql fails sql).2.rows = sql.selects w.conn.visible ∨ (w.execSql fails sql).2.rows = [] := by
  have hread : ∀ read : LocalStore → SqlReply,
      (w.execRead read fails).2.rows = (read w.conn.visible).rows ∨
        (w.execRead read fails).2.rows = [] := by
    intro read
    rcases execRead_reply w read fails with hr | hr
    · exact .inl (by rw [hr])
    · exact .inr (by rw [hr])
  cases sql with
  | begin => cases fails <;> exact .inr rfl
  | commit => cases fails <;> exact .inr rfl
  | rollback => cases fails <;> exact .inr rfl
  | statement statement => exact .inr rfl
  | insertMutations table rows => exact .inr rfl
  | readPending tables nowUs batchSize => exact hread _
  | readUnit unitId => exact hread _
  | readMarker => exact hread _

theorem mem_selects {fails : Bool} {sql : Sql} {row : JournalRow}
    (h : row ∈ (w.execSql fails sql).2.rows) : row ∈ sql.selects w.conn.visible := by
  rcases execSql_rows w fails sql with hr | hr
  · exact hr ▸ h
  · rw [hr] at h
    exact absurd h List.not_mem_nil

theorem execSql_marker {fails : Bool} (h : (w.execSql fails .readMarker).2.ok = true) :
    (w.execSql fails .readMarker).2.marker = w.conn.visible.recoveryRequired := by
  change (w.execRead _ fails).2.ok = true at h
  change (w.execRead _ fails).2.marker = _
  rcases execRead_reply w (fun store => ⟨true, [], store.recoveryRequired⟩) fails with hr | hr
  · rw [hr]
  · rw [hr] at h
    exact absurd h Bool.false_ne_true

/-! ### Calls -/

@[simp] theorem put_calls_self (w : Runtime) (c : ℕ) (program : Program) :
    (w.put c program).calls c = some ⟨program, none⟩ := Function.update_self ..

@[simp] theorem issue_calls_self (w : Runtime) (c : ℕ) (sql : Sql) (program : Program) :
    (w.issue c sql program).calls c = some ⟨program, none⟩ := Function.update_self ..

end Runtime

/-- The statement that a program has issued and awaits. -/
def Program.Awaits : Program → Sql → Prop
  | .sender (.batch tables) .reading, sql => ∃ nowUs batchSize, sql = .readPending tables nowUs batchSize
  | .sender (.unit unitId) .reading, sql => sql = .readUnit unitId
  | .sender _ (.marking _ _ _ true), sql => sql = .statement (.writeRecoveryRequired true)
  | .sender _ (.marking rows table _ false), sql => sql = Runtime.markSendingUpdate rows table
  | .sender _ (.settling rows updates table _), sql =>
    sql = .statement (.statusUpdates table (Runtime.settleUpdates updates rows table))
  | .script _ todo _, sql => todo.head? = some sql
  | .bootReading, sql => sql = .readMarker
  | .settle, sql => sql = .statement .clearRecoveryMarkerIfSettled
  | _, _ => False

theorem not_awaits_waiting (route : Route) (sql : Sql) :
    ¬ (Program.sender route .waiting).Awaits sql := by
  cases route <;> exact id

theorem not_awaits_entering (route : Route) (rows : List JournalRow) (todo : List ℕ) (sql : Sql) :
    ¬ (Program.sender route (.entering rows todo)).Awaits sql := by
  cases route <;> exact id

theorem not_awaits_authorizing (route : Route) (rows : List JournalRow) (sql : Sql) :
    ¬ (Program.sender route (.authorizing rows)).Awaits sql := by
  cases route <;> exact id

theorem not_awaits_inFlight (route : Route) (rows : List JournalRow) (sql : Sql) :
    ¬ (Program.sender route (.inFlight rows)).Awaits sql := by
  cases route <;> exact id

/-- What a script may hold: that of a call, or that of a boot recovery. -/
def Sql.Allowed (options : RuntimeOptions) (boot : Option Bool) : Sql → Prop
  | .begin => True
  | .commit => True
  | .rollback => True
  | .insertMutations table _ => boot = none ∧ table ∈ options.tables
  | .statement (.retryFailed _ _) => boot = none
  | .statement (.delete _ status _) => boot = none ∧ status.isTerminal = true
  | .statement (.recoverSending _ _) => True
  | .statement (.quarantineRecovered _) => True
  | .statement (.writeRecoveryRequired required) => boot = some false ∧ required = false
  | .statement .clearRecoveryMarkerIfSettled => boot ≠ none
  | _ => False

/-- What a program carries is of the right kind: the statements of a script, the tables a
sender still has to do, and the statuses it gives its rows once it has an answer. -/
def Program.Fits (options : RuntimeOptions) : Program → Prop
  | .script boot todo _ => ∀ sql ∈ todo, sql.Allowed options boot
  | .sender _ (.entering _ todo) => todo.Nodup
  | .sender _ (.marking _ table todo _) => (table :: todo).Nodup
  | .sender _ (.settling _ updates table todo) =>
    (table :: todo).Nodup ∧
      ∀ update ∈ updates, isValidMutationTransition .sending update.status = true
  | _ => True

namespace Runtime

variable {options : RuntimeOptions} {w w' : Runtime} {c : ℕ}

/-- The call awaits no statement. -/
def Free (w : Runtime) (c : ℕ) : Prop :=
  ∀ program, w.calls c = some ⟨program, none⟩ → ∀ sql, ¬ program.Awaits sql

/-- What a call that begins or continues does to the runtime. -/
inductive CallStep (options : RuntimeOptions) (w : Runtime) (c : ℕ) : Runtime → Prop
  | beginFlush {tables : List ℕ} (hb : w.booted = true) (hc : w.calls c = none) :
      CallStep options w c
        { w.put c (.sender (.batch tables) .waiting) with flushQueue := w.flushQueue ++ [c] }
  | beginUnit {unitId : ℕ} (hb : w.booted = true) (hc : w.calls c = none) :
      CallStep options w c (w.issue c (.readUnit unitId) (.sender (.unit unitId) .reading))
  | beginScript {sql : Sql} {todo : List Sql} (hb : w.booted = true) (hc : w.calls c = none)
      (hs : ∀ s ∈ sql :: todo, s.Allowed options none) :
      CallStep options w c (w.issue c sql (.script none (sql :: todo) false))
  | beginEmpty (hb : w.booted = true) (hc : w.calls c = none) : CallStep options w c (w.finish c)
  | beginSettle (hb : w.booted = true) (hc : w.calls c = none) (hs : w.markSendingSpans = []) :
      CallStep options w c ({ w with recoveryMarkerDirty := false }.issue c
        (.statement .clearRecoveryMarkerIfSettled) .settle)
  | skipSettle : CallStep options w c w
  | startFlush {route : Route} {nowUs : ℕ}
      (hc : w.calls c = some ⟨.sender route .waiting, none⟩) (hq : w.flushQueue.head? = some c) :
      CallStep options w c (w.issue c (readStatement options nowUs route) (.sender route .reading))
  | rowsRead {route : Route} {reply : SqlReply}
      (hc : w.calls c = some ⟨.sender route .reading, some reply⟩) (hok : reply.ok = true) :
      CallStep options w c (w.put c (.sender route (.entering reply.rows (tablesOf reply.rows))))
  | markDirty {route : Route} {rows : List JournalRow} {table : ℕ} {todo : List ℕ}
      (hc : w.calls c = some ⟨.sender route (.entering rows (table :: todo)), none⟩)
      (hd : w.recoveryMarkerDirty = true) :
      CallStep options w c ({ w with markSendingSpans := c :: w.markSendingSpans }.issue c
        (markSendingUpdate rows table) (.sender route (.marking rows table todo false)))
  | markClean {route : Route} {rows : List JournalRow} {table : ℕ} {todo : List ℕ}
      (hc : w.calls c = some ⟨.sender route (.entering rows (table :: todo)), none⟩)
      (hd : w.recoveryMarkerDirty = false) :
      CallStep options w c ({ w with markSendingSpans := c :: w.markSendingSpans }.issue c
        (.statement (.writeRecoveryRequired true))
        (.sender route (.marking rows table todo true)))
  | markerWritten {route : Route} {rows : List JournalRow} {table : ℕ} {todo : List ℕ}
      {reply : SqlReply}
      (hc : w.calls c = some ⟨.sender route (.marking rows table todo true), some reply⟩)
      (hok : reply.ok = true) :
      CallStep options w c ({ w with recoveryMarkerDirty := true }.issue c
        (markSendingUpdate rows table) (.sender route (.marking rows table todo false)))
  | marked {route : Route} {rows : List JournalRow} {table : ℕ} {todo : List ℕ} {reply : SqlReply}
      (hc : w.calls c = some ⟨.sender route (.marking rows table todo false), some reply⟩)
      (hok : reply.ok = true) :
      CallStep options w c ((w.exitMarkSending c).put c (.sender route (.entering rows todo)))
  | markFails {route : Route} {rows : List JournalRow} {table : ℕ} {todo : List ℕ}
      {marker : Bool} {reply : SqlReply}
      (hc : w.calls c = some ⟨.sender route (.marking rows table todo marker), some reply⟩)
      (hok : reply.ok = false) :
      CallStep options w c ((w.exitMarkSending c).finish c)
  | allMarked {route : Route} {rows : List JournalRow}
      (hc : w.calls c = some ⟨.sender route (.entering rows []), none⟩) :
      CallStep options w c (w.put c (.sender route (.authorizing rows)))
  | sends {route : Route} {rows : List JournalRow} {reply : Option SqlReply}
      (hc : w.calls c = some ⟨.sender route (.authorizing rows), reply⟩) :
      CallStep options w c
        { w.put c (.sender route (.inFlight rows)) with requests := w.requests ++ [rows] }
  | resends {route : Route} {rows : List JournalRow} {reply : Option SqlReply}
      (hc : w.calls c = some ⟨.sender route (.inFlight rows), reply⟩) :
      CallStep options w c { w with requests := w.requests ++ [rows] }
  | responded {route : Route} {stage : SenderStage} {rows : List JournalRow} {table : ℕ}
      {todo : List ℕ} {response : WriteResponse} {retryAtUs : ℕ → ℕ} {reply : Option SqlReply}
      (hc : w.calls c = some ⟨.sender route stage, reply⟩)
      (hs : stage = .authorizing rows ∨ stage = .inFlight rows)
      (ht : tablesOf rows = table :: todo) :
      CallStep options w c (w.issue c
        (.statement (.statusUpdates table
          (settleUpdates (rows.map (outcomeUpdate options retryAtUs route response)) rows table)))
        (.sender route (.settling rows
          (rows.map (outcomeUpdate options retryAtUs route response)) table todo)))
  | settleNext {route : Route} {rows : List JournalRow} {updates : List MutationStatusUpdate}
      {done table : ℕ} {todo : List ℕ} {reply : SqlReply}
      (hc : w.calls c = some ⟨.sender route (.settling rows updates done (table :: todo)), some reply⟩)
      (hok : reply.ok = true) :
      CallStep options w c (w.issue c
        (.statement (.statusUpdates table (settleUpdates updates rows table)))
        (.sender route (.settling rows updates table todo)))
  | nextPass {tables : List ℕ} {stage : SenderStage} {nowUs : ℕ} {reply : Option SqlReply}
      (hc : w.calls c = some ⟨.sender (.batch tables) stage, reply⟩) (hf : w.Free c)
      (hm : ∀ rows table todo marker, stage ≠ .marking rows table todo marker) (hw : stage ≠ .waiting) :
      CallStep options w c (w.issue c (readStatement options nowUs (.batch tables))
        (.sender (.batch tables) .reading))
  | senderEnds {route : Route} {stage : SenderStage} {reply : Option SqlReply}
      (hc : w.calls c = some ⟨.sender route stage, reply⟩) (hf : w.Free c)
      (hm : ∀ rows table todo marker, stage ≠ .marking rows table todo marker) :
      CallStep options w c (w.finish c)
  | scriptNext {boot : Option Bool} {done sql : Sql} {todo : List Sql} {opened : Bool}
      {reply : SqlReply}
      (hc : w.calls c = some ⟨.script boot (done :: sql :: todo) opened, some reply⟩)
      (hok : reply.ok = true) :
      CallStep options w c
        (w.issue c sql (.script boot (sql :: todo) (opened || (some done = some .begin : Bool))))
  | scriptDone {boot : Option Bool} {todo : List Sql} {opened : Bool} {reply : SqlReply}
      (hc : w.calls c = some ⟨.script boot todo opened, some reply⟩) (hok : reply.ok = true)
      (ht : todo.tail = []) (hr : todo ≠ [.rollback]) : CallStep options w c (w.finishScript c boot)
  | scriptRollsBack {boot : Option Bool} {todo : List Sql} {reply : SqlReply}
      (hc : w.calls c = some ⟨.script boot todo true, some reply⟩) (hok : reply.ok = false) :
      CallStep options w c (w.issue c .rollback (.script boot [.rollback] false))
  | scriptEnds {boot : Option Bool} {todo : List Sql} {opened : Bool} {reply : SqlReply}
      (hc : w.calls c = some ⟨.script boot todo opened, some reply⟩) :
      CallStep options w c (w.finish c)
  | bootSkips {reply : SqlReply} (hc : w.calls c = some ⟨.bootReading, some reply⟩)
      (hok : reply.ok = true) (hm : reply.marker = some false) :
      CallStep options w c (w.finishScript c (some false))
  | bootInitializes {reply : SqlReply} {nowUs : ℕ} {sql : Sql} {todo : List Sql}
      (hc : w.calls c = some ⟨.bootReading, some reply⟩)
      (hs : recoverSending options nowUs ++ [.statement (.writeRecoveryRequired false)] =
        sql :: todo) :
      CallStep options w c (w.issue c sql (.script (some false) (sql :: todo) false))
  | bootRecovers {reply : SqlReply} {nowUs : ℕ}
      (hc : w.calls c = some ⟨.bootReading, some reply⟩) :
      CallStep options w c (w.issue c .begin (.script (some false)
        (inTransaction (recoverSending options nowUs ++
          [.statement .clearRecoveryMarkerIfSettled])) false))
  | bootFails {reply : SqlReply} (hc : w.calls c = some ⟨.bootReading, some reply⟩) :
      CallStep options w c (w.finish c)
  | settleEnds {reply : SqlReply} (hc : w.calls c = some ⟨.settle, some reply⟩) :
      CallStep options w c (w.finish c)

theorem free_of_replied {program : Program} {reply : SqlReply}
    (hc : w.calls c = some ⟨program, some reply⟩) : w.Free c := by
  intro program' hp
  rw [hc] at hp
  cases hp

theorem free_of_quiet {program : Program} {reply : Option SqlReply}
    (hc : w.calls c = some ⟨program, reply⟩) (hq : ∀ sql, ¬ program.Awaits sql) : w.Free c := by
  intro program' hp sql
  rw [hc] at hp
  cases hp
  exact hq sql

theorem free_of_unknown (hc : w.calls c = none) : w.Free c := by
  intro program' hp
  rw [hc] at hp
  cases hp

/-- A script begins with the first of its statements. -/
theorem beginScript_step (hb : w.booted = true) (hc : w.calls c = none) :
    ∀ {script : List Sql}, (∀ sql ∈ script, sql.Allowed options none) →
      CallStep options w c (w.runScript c none false script)
  | [], _ => .beginEmpty hb hc
  | _ :: _, hs => .beginScript hb hc hs

theorem beginTransaction_step (hb : w.booted = true) (hc : w.calls c = none)
    {statements : List Sql} (hs : ∀ sql ∈ statements, sql.Allowed options none) :
    CallStep options w c (w.runScript c none false (inTransaction statements)) := by
  refine beginScript_step hb hc fun sql hsql => ?_
  simp only [inTransaction, List.mem_cons, List.mem_append, List.not_mem_nil, or_false] at hsql
  rcases hsql with rfl | hsql | rfl
  · trivial
  · exact hs sql hsql
  · trivial

theorem beginCall_step {spec : CallSpec} {nowUs : ℕ} (hb : w.booted = true)
    (hc : w.calls c = none) (hk : spec.isKnown options = true) :
    CallStep options w c (w.beginCall c nowUs spec) := by
  cases spec with
  | flush tables => exact .beginFlush hb hc
  | flushUnit unitId => exact .beginUnit hb hc
  | enqueue inserts =>
    refine beginTransaction_step hb hc fun sql hsql => ?_
    obtain ⟨insert, hi, rfl⟩ := List.mem_map.1 hsql
    have hk := List.all_eq_true.1 hk insert hi
    exact ⟨rfl, by simpa using hk⟩
  | retryFailed tables =>
    refine beginScript_step hb hc fun sql hsql => ?_
    obtain ⟨table, -, rfl⟩ := List.mem_map.1 hsql
    rfl
  | recoverSending tables =>
    refine beginScript_step hb hc fun sql hsql => ?_
    obtain ⟨table, -, rfl⟩ := List.mem_map.1 hsql
    trivial
  | quarantineRecovered tables =>
    refine beginScript_step hb hc fun sql hsql => ?_
    obtain ⟨table, -, rfl⟩ := List.mem_map.1 hsql
    trivial
  | reconcile table conflicted acked =>
    refine beginTransaction_step hb hc fun sql hsql => ?_
    simp only [List.mem_cons, List.not_mem_nil, or_false] at hsql
    rcases hsql with rfl | rfl <;> exact ⟨rfl, rfl⟩
  | discard table quarantined mutationIds =>
    refine beginTransaction_step hb hc fun sql hsql => ?_
    obtain rfl := List.mem_singleton.1 hsql
    cases quarantined <;> exact ⟨rfl, rfl⟩
  | settle =>
    change CallStep options w c (w.settleRecoveryMarker c)
    unfold settleRecoveryMarker
    split
    · next hs => exact .beginSettle hb hc (List.isEmpty_iff.1 hs)
    · exact .skipSettle

/-- The next UPDATE with the results of a request, or the end of the pass. -/
theorem settleNext_step {route : Route} {stage : SenderStage} {rows : List JournalRow}
    {updates : List MutationStatusUpdate} {reply : Option SqlReply} {nowUs : ℕ}
    (hc : w.calls c = some ⟨.sender route stage, reply⟩) (hf : w.Free c)
    (hm : ∀ rows table todo marker, stage ≠ .marking rows table todo marker) (hw : stage ≠ .waiting)
    {todo : List ℕ}
    (hn : ∀ table rest, todo = table :: rest → CallStep options w c (w.issue c
      (.statement (.statusUpdates table (settleUpdates updates rows table)))
      (.sender route (.settling rows updates table rest)))) :
    CallStep options w c (w.settleNext options c nowUs route rows updates todo) := by
  cases todo with
  | nil =>
    cases route with
    | batch tables => exact .nextPass hc hf hm hw
    | unit unitId => exact .senderEnds hc hf hm
  | cons table rest => exact hn table rest rfl

theorem resumeSender_step {route : Route} {stage : SenderStage} {reply : SqlReply} {nowUs : ℕ}
    (hc : w.calls c = some ⟨.sender route stage, some reply⟩)
    (h : w.resumeSender options c nowUs route stage reply = some w') : CallStep options w c w' := by
  have hf : w.Free c := free_of_replied hc
  cases stage with
  | reading =>
    simp only [resumeSender] at h
    split at h
    · next hr =>
      rw [Bool.and_eq_true] at hr
      obtain rfl := Option.some.inj h
      exact .rowsRead hc hr.1
    · obtain rfl := Option.some.inj h
      exact .senderEnds hc hf (by simp)
  | marking rows table todo marker =>
    cases marker with
    | true =>
      simp only [resumeSender] at h
      split at h
      · next hok => exact Option.some.inj h ▸ .markerWritten hc hok
      · next hok => exact Option.some.inj h ▸ .markFails hc (by simpa using hok)
    | false =>
      simp only [resumeSender] at h
      split at h
      · next hok => exact Option.some.inj h ▸ .marked hc hok
      · next hok => exact Option.some.inj h ▸ .markFails hc (by simpa using hok)
  | settling rows updates done todo =>
    simp only [resumeSender] at h
    split at h
    · next hok =>
      obtain rfl := Option.some.inj h
      refine settleNext_step hc hf (by simp) (by simp) fun table rest ht => ?_
      subst ht
      exact .settleNext hc hok
    · obtain rfl := Option.some.inj h
      exact .senderEnds hc hf (by simp)
  | waiting => simp [resumeSender] at h
  | entering rows todo => simp [resumeSender] at h
  | authorizing rows => simp [resumeSender] at h
  | inFlight rows => simp [resumeSender] at h

theorem resumeScript_step {boot : Option Bool} {todo : List Sql} {opened : Bool}
    {reply : SqlReply} (hc : w.calls c = some ⟨.script boot todo opened, some reply⟩) :
    CallStep options w c (w.resumeScript c boot todo opened reply) := by
  unfold resumeScript
  split
  · next hok =>
    split
    · exact .scriptEnds hc
    · next hr =>
      cases todo with
      | nil => exact .scriptDone hc hok rfl hr
      | cons done todo =>
        cases todo with
        | nil => exact .scriptDone hc hok rfl hr
        | cons sql todo => exact .scriptNext hc hok
  · next hok =>
    split
    · next ho =>
      subst ho
      exact .scriptRollsBack hc (by simpa using hok)
    · exact .scriptEnds hc

theorem resumeBoot_step {reply : SqlReply} {nowUs : ℕ}
    (hc : w.calls c = some ⟨.bootReading, some reply⟩) :
    CallStep options w c (w.resumeBoot options c nowUs reply) := by
  unfold resumeBoot
  split
  · next hok =>
    split
    · next hm => exact .bootSkips hc hok hm
    · cases hs : recoverSending options nowUs ++ [.statement (.writeRecoveryRequired false)] with
      | nil => simp at hs
      | cons sql todo => exact .bootInitializes hc hs
    · exact .bootRecovers hc
  · exact .bootFails hc

theorem enterMarkSending_step {route : Route} {rows : List JournalRow} {todo : List ℕ}
    (hc : w.calls c = some ⟨.sender route (.entering rows todo), none⟩) :
    CallStep options w c (w.enterMarkSending c route rows todo) := by
  cases todo with
  | nil => exact .allMarked hc
  | cons table todo =>
    unfold enterMarkSending
    dsimp only
    split
    · next hd => exact .markDirty hc hd
    · next hd => exact .markClean hc (by simpa using hd)

theorem resumeCall_step {call : Call} {nowUs : ℕ} (hc : w.calls c = some call)
    (h : w.resumeCall options c nowUs call = some w') : CallStep options w c w' := by
  obtain ⟨program, reply⟩ := call
  cases reply with
  | none =>
    cases program with
    | sender route stage =>
      cases stage with
      | waiting =>
        simp only [resumeCall] at h
        split at h
        · next hq => exact Option.some.inj h ▸ .startFlush hc hq
        · cases h
      | entering rows todo => exact Option.some.inj h ▸ enterMarkSending_step hc
      | reading => simp [resumeCall] at h
      | marking rows table todo marker => simp [resumeCall] at h
      | authorizing rows => simp [resumeCall] at h
      | inFlight rows => simp [resumeCall] at h
      | settling rows updates table todo => simp [resumeCall] at h
    | script boot todo opened => simp [resumeCall] at h
    | bootReading => simp [resumeCall] at h
    | settle => simp [resumeCall] at h
  | some reply =>
    cases program with
    | sender route stage =>
      have h : w.resumeSender options c nowUs route stage reply = some w' := by
        cases stage <;> exact h
      exact resumeSender_step hc h
    | script boot todo opened => exact Option.some.inj h ▸ resumeScript_step hc
    | bootReading => exact Option.some.inj h ▸ resumeBoot_step hc
    | settle => exact Option.some.inj h ▸ .settleEnds hc

theorem sendCall_step {call : Call} (hc : w.calls c = some call)
    (h : w.sendCall c call = some w') : CallStep options w c w' := by
  obtain ⟨program, reply⟩ := call
  unfold sendCall at h
  dsimp only at h
  split at h
  · exact Option.some.inj h ▸ .sends hc
  · exact Option.some.inj h ▸ .resends hc
  · cases h

theorem respondCall_step {call : Call} {nowUs : ℕ} {response : WriteResponse}
    {retryAtUs : ℕ → ℕ} (hc : w.calls c = some call)
    (h : w.respondCall options c nowUs response retryAtUs call = some w') :
    CallStep options w c w' := by
  obtain ⟨program, reply⟩ := call
  unfold respondCall at h
  dsimp only at h
  split at h
  · obtain rfl := Option.some.inj h
    exact settleNext_step hc (free_of_quiet hc (not_awaits_authorizing _ _)) (by simp) (by simp)
      fun table rest ht => .responded hc (.inl rfl) ht
  · obtain rfl := Option.some.inj h
    exact settleNext_step hc (free_of_quiet hc (not_awaits_inFlight _ _)) (by simp) (by simp)
      fun table rest ht => .responded hc (.inr rfl) ht
  · cases h

/-- The effect is about the connection and the block alone. -/
theorem Effect.congr {fails ok : Bool} {sql : Sql} {v : Runtime} (h : Effect w fails sql v ok)
    (hc : w'.conn = v.conn) (hb : w'.block = v.block) : Effect w fails sql w' ok := by
  cases h with
  | nothing hv hc' ht hb' hok => exact .nothing (hc ▸ hv) (hc ▸ hc') (hc ▸ ht) (hb ▸ hb') hok
  | commit hsql hc' hb' => exact .commit hsql (hc.trans hc') (hb.trans hb')
  | rollback hr hc' hb' => exact .rollback hr (hc.trans hc') (hb.trans hb')
  | alone hs he ht hc' hb' hok => exact .alone hs he ht (hc.trans hc') (hb.trans hb') hok
  | inBlock hs he ht hc' hb' hok => exact .inBlock hs he ht (hc.trans hc') (hb.trans hb') hok

/-- The first statement of the queue runs, and its call has the reply. -/
structure Executes (w : Runtime) (fails : Bool) (c : ℕ) (sql : Sql) (w' : Runtime) : Prop where
  queue : w.queue = (c, sql) :: w'.queue
  conn : w'.conn = (w.execSql fails sql).1.conn
  block : w'.block = (w.execSql fails sql).1.block
  sequences : w'.sequences = (w.execSql fails sql).1.sequences
  nextMutationId : w'.nextMutationId = (w.execSql fails sql).1.nextMutationId
  calls : w'.calls = Function.update w.calls c
    ((w.calls c).map fun call => { call with reply := some (w.execSql fails sql).2 })
  dirty : w'.recoveryMarkerDirty = w.recoveryMarkerDirty
  spans : w'.markSendingSpans = w.markSendingSpans
  flushQueue : w'.flushQueue = w.flushQueue
  booted : w'.booted = w.booted
  requests : w'.requests = w.requests
  recovered : w'.recovered = w.recovered

theorem Executes.effect {fails : Bool} {sql : Sql} (h : Executes w fails c sql w') :
    Effect w fails sql w' (w.execSql fails sql).2.ok :=
  (execSql_effect w fails sql).congr h.conn h.block

/-- A statement does not look at the queue. -/
theorem execSql_queue (w : Runtime) (queue : List (ℕ × Sql)) (fails : Bool) (sql : Sql) :
    ({ w with queue := queue }.execSql fails sql) =
      ({ (w.execSql fails sql).1 with queue := queue }, (w.execSql fails sql).2) := by
  cases sql with
  | begin => cases fails <;> rfl
  | commit => cases fails <;> rfl
  | rollback => cases fails <;> rfl
  | _ => rfl

theorem execute_executes {fails : Bool}
    (h : runtimeStep options w (.execute fails) = some w') :
    ∃ c sql, Executes w fails c sql w' := by
  unfold runtimeStep at h
  dsimp only at h
  split at h
  · cases h
  · next c sql queue hq =>
    rw [execSql_queue] at h
    obtain rfl := Option.some.inj h
    have hm := execSql_memory w fails sql
    refine ⟨c, sql, ?_⟩
    unfold answer
    dsimp only
    rw [hm.calls]
    split
    · next hc =>
      exact ⟨hq, rfl, rfl, rfl, rfl, by simp [hc], hm.dirty, hm.spans, hm.flushQueue,
        hm.booted, hm.requests, hm.recovered⟩
    · next call hc =>
      exact ⟨hq, rfl, rfl, rfl, rfl, by simp [hc], hm.dirty, hm.spans, hm.flushQueue,
        hm.booted, hm.requests, hm.recovered⟩

/-- The four kinds of step. -/
theorem step_cases {event : RuntimeEvent} (h : runtimeStep options w event = some w') :
    (∃ c, CallStep options w c w') ∨
    (∃ fails c sql, event = .execute fails ∧ Executes w fails c sql w') ∨
    (event = .crash ∧ w' = w.crashed) ∨
    (∃ c nowUs restore, event = .boot c nowUs restore ∧ w.booted = false ∧
      w' = w.crashed.bootCall options c nowUs restore) := by
  cases event with
  | call c spec nowUs =>
    simp only [runtimeStep] at h
    split at h
    · next hg =>
      simp only [Bool.and_eq_true, Option.isNone_iff_eq_none] at hg
      obtain rfl := Option.some.inj h
      exact .inl ⟨c, beginCall_step hg.1.1 hg.1.2 hg.2⟩
    · cases h
  | execute fails =>
    obtain ⟨c, sql, he⟩ := execute_executes h
    exact .inr (.inl ⟨fails, c, sql, rfl, he⟩)
  | resume c nowUs =>
    obtain ⟨call, hc, h⟩ := Option.bind_eq_some_iff.1 h
    exact .inl ⟨c, resumeCall_step hc h⟩
  | send c =>
    obtain ⟨call, hc, h⟩ := Option.bind_eq_some_iff.1 h
    exact .inl ⟨c, sendCall_step hc h⟩
  | respond c nowUs response retryAtUs =>
    obtain ⟨call, hc, h⟩ := Option.bind_eq_some_iff.1 h
    exact .inl ⟨c, respondCall_step hc h⟩
  | crash => exact .inr (.inr (.inl ⟨rfl, (Option.some.inj h).symm⟩))
  | boot c nowUs restore =>
    simp only [runtimeStep] at h
    split at h
    · cases h
    · next hb =>
      exact .inr (.inr (.inr ⟨c, nowUs, restore, rfl, by simpa using hb,
        (Option.some.inj h).symm⟩))

end Runtime

end Mutation
