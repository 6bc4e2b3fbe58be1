/-
What the image of a strict export holds.

The journals of the counted tables stay drained from their count to the image, unless a write comes between or the
count was taken inside an open block.  A mutation that was committed before the image has landed by then, or was
refused, or its row is among those that the drain does not count.
-/
import Pgxsinkit.Mutation.Export

namespace Mutation

open Connection Runs

/-! ### Drained journals -/

/-- A journal without rows in the six counted statuses. -/
def Drained (table : ℕ) (store : LocalStore) : Prop :=
  ∀ row ∈ store.journal, row.tableKey = table → row.status = .rejected

instance (table : ℕ) (store : LocalStore) : Decidable (Drained table store) :=
  inferInstanceAs (Decidable (∀ row ∈ store.journal, row.tableKey = table → row.status = .rejected))

/-- The statement gives a journal a row in one of the six statuses. -/
def JournalStatement.Fills (store : LocalStore) (table : ℕ) : JournalStatement → Prop
  | .insert rows => ∃ row ∈ rows, row.tableKey = table
  | .statusUpdates table' updates => table' = table ∧ ∃ row ∈ store.journal, row.tableKey = table ∧
      (row.applyUpdates updates).status ≠ .rejected ∧ row.status = .rejected
  | _ => False

namespace MutationDiagnostics

theorem filteredCount_eq_zero {store : LocalStore} {table : ℕ} {status : MutationStatus} :
    filteredCount store table status = 0 ↔ ∀ row ∈ store.journal, row.tableKey = table → row.status ≠ status := by
  rw [filteredCount, List.countP_eq_zero]
  simp

theorem isFullyDrained_iff {totals : MutationDiagnostics} : totals.isFullyDrained = true ↔
    totals.pendingCount = 0 ∧ totals.sendingCount = 0 ∧ totals.ackedCount = 0 ∧ totals.failedCount = 0 ∧
      totals.quarantinedCount = 0 ∧ totals.conflictedCount = 0 := by
  simp [isFullyDrained, hasNonDrainableRows, and_assoc]

/-- A read that is drained so far stays so when the next journal is drained. -/
theorem isFullyDrained_add {totals : MutationDiagnostics} {store : LocalStore} {table : ℕ} :
    (totals.add store table).isFullyDrained = true ↔ totals.isFullyDrained = true ∧ Drained table store := by
  have hcases : Drained table store ↔ filteredCount store table .pending = 0 ∧
      filteredCount store table .sending = 0 ∧ filteredCount store table .acked = 0 ∧
      filteredCount store table .failed = 0 ∧ filteredCount store table .quarantined = 0 ∧
      filteredCount store table .conflicted = 0 := by
    simp only [filteredCount_eq_zero]
    constructor
    · intro h
      refine ⟨?_, ?_, ?_, ?_, ?_, ?_⟩ <;> intro row hrow htable <;> rw [h row hrow htable] <;> decide
    · rintro ⟨hpending, hsending, hacked, hfailed, hquarantined, hconflicted⟩ row hrow htable
      cases hstatus : row.status with
      | rejected => rfl
      | pending => exact absurd hstatus (hpending row hrow htable)
      | sending => exact absurd hstatus (hsending row hrow htable)
      | acked => exact absurd hstatus (hacked row hrow htable)
      | failed => exact absurd hstatus (hfailed row hrow htable)
      | quarantined => exact absurd hstatus (hquarantined row hrow htable)
      | conflicted => exact absurd hstatus (hconflicted row hrow htable)
  rw [hcases, isFullyDrained_iff, isFullyDrained_iff]
  simp only [add]
  omega

end MutationDiagnostics

theorem rejected_moveStatus {table : ℕ} {sources : List MutationStatus} {target : MutationStatus}
    {nextRetryAtUs : Option ℕ} {row : JournalRow} (h : row.status = .rejected) (hs : .rejected ∉ sources) :
    (row.moveStatus table sources target nextRetryAtUs).status = .rejected := by
  rw [JournalRow.moveStatus_of_status (h ▸ hs), h]

/-- A drained journal stays drained under a statement that does not fill it. -/
theorem Drained.exec {store store' : LocalStore} {statement : JournalStatement} {table : ℕ}
    (h : Drained table store) (hfills : ¬ statement.Fills store table)
    (he : statement.exec store = some store') : Drained table store' := by
  have hmap : ∀ set : JournalRow → JournalRow, (∀ row, (set row).SameMutation row) →
      (∀ row ∈ store.journal, row.tableKey = table → (set row).status = .rejected) →
      store'.journal = store.journal.map set → Drained table store' := by
    intro set hsame hset hjournal row hrow htable
    rw [hjournal] at hrow
    obtain ⟨old, hold, rfl⟩ := List.mem_map.mp hrow
    exact hset old hold ((hsame old).2.1.symm.trans htable)
  cases statement with
  | insert rows =>
    intro row hrow htable
    rw [(JournalStatement.exec_insert he).1] at hrow
    rcases List.mem_append.mp hrow with hrow | hrow
    · exact h row hrow htable
    · exact absurd ⟨row, hrow, htable⟩ hfills
  | statusUpdates table' updates =>
    cases he
    refine hmap _ (JournalStatement.sameMutation_applyUpdatesIn table' updates) (fun row hrow htable => ?_) rfl
    have hold := h row hrow htable
    unfold JournalStatement.applyUpdatesIn
    split
    · rename_i htable'
      by_contra hne
      exact hfills ⟨htable'.symm.trans htable, row, hrow, htable, hne, hold⟩
    · exact hold
  | retryFailed table' nowUs =>
    cases he
    exact hmap _ (fun row => JournalRow.sameMutation_moveStatus ..)
      (fun row hrow htable => rejected_moveStatus (h row hrow htable) (by decide)) rfl
  | recoverSending table' nowUs =>
    cases he
    exact hmap _ (fun row => JournalRow.sameMutation_moveStatus ..)
      (fun row hrow htable => rejected_moveStatus (h row hrow htable) (by decide)) rfl
  | quarantineRecovered table' =>
    cases he
    exact hmap _ (fun row => JournalRow.sameMutation_moveStatus ..)
      (fun row hrow htable => rejected_moveStatus (h row hrow htable) (by decide)) rfl
  | delete table' status mutationIds =>
    cases he
    exact fun row hrow htable => h row (List.mem_of_mem_filter hrow) htable
  | writeRecoveryRequired required =>
    cases he
    exact h
  | clearRecoveryMarkerIfSettled =>
    cases he
    exact h

/-! ### Rows that stay -/

theorem writeMode_applyUpdates (updates : List MutationStatusUpdate) (row : JournalRow) :
    (row.applyUpdates updates).writeMode = row.writeMode := by
  unfold JournalRow.applyUpdates
  split <;> rfl

theorem writeMode_moveStatus (table : ℕ) (sources : List MutationStatus) (target : MutationStatus)
    (nextRetryAtUs : Option ℕ) (row : JournalRow) :
    (row.moveStatus table sources target nextRetryAtUs).writeMode = row.writeMode := by
  unfold JournalRow.moveStatus
  split <;> rfl

/-- A row outlives a statement that does not delete it, with its table and its mode. -/
theorem JournalStatement.exec_survives {store store' : LocalStore} {statement : JournalStatement} {row : JournalRow}
    (he : statement.exec store = some store') (hrow : row ∈ store.journal)
    (hs : ∀ table status mutationIds, statement = .delete table status mutationIds →
      survives table status mutationIds row = true) :
    ∃ row' ∈ store'.journal, row'.mutationId = row.mutationId ∧ row'.tableKey = row.tableKey ∧
      row'.writeMode = row.writeMode := by
  have hmap : ∀ set : JournalRow → JournalRow, (set row).SameMutation row → (set row).writeMode = row.writeMode →
      store'.journal = store.journal.map set → ∃ row' ∈ store'.journal, row'.mutationId = row.mutationId ∧
        row'.tableKey = row.tableKey ∧ row'.writeMode = row.writeMode :=
    fun set hsame hmode hjournal =>
      ⟨_, hjournal ▸ List.mem_map_of_mem hrow, hsame.1, hsame.2.1, hmode⟩
  cases statement with
  | insert rows => exact ⟨row, (exec_insert he).1 ▸ List.mem_append_left _ hrow, rfl, rfl, rfl⟩
  | statusUpdates table updates =>
    cases he
    refine hmap _ (sameMutation_applyUpdatesIn table updates row) ?_ rfl
    unfold applyUpdatesIn
    split
    · exact writeMode_applyUpdates updates row
    · rfl
  | retryFailed table nowUs =>
    cases he
    exact hmap _ (JournalRow.sameMutation_moveStatus ..) (writeMode_moveStatus ..) rfl
  | recoverSending table nowUs =>
    cases he
    exact hmap _ (JournalRow.sameMutation_moveStatus ..) (writeMode_moveStatus ..) rfl
  | quarantineRecovered table =>
    cases he
    exact hmap _ (JournalRow.sameMutation_moveStatus ..) (writeMode_moveStatus ..) rfl
  | delete table status mutationIds =>
    cases he
    exact ⟨row, List.mem_filter.mpr ⟨hrow, hs table status mutationIds rfl⟩, rfl, rfl, rfl⟩
  | writeRecoveryRequired required =>
    cases he
    exact ⟨row, hrow, rfl, rfl, rfl⟩
  | clearRecoveryMarkerIfSettled =>
    cases he
    exact ⟨row, hrow, rfl, rfl, rfl⟩

/-! ### Steps -/

/-- The tables whose journals the export has found drained, and goes by. -/
def ExportStage.drained (tables : List ℕ) : ExportStage → List ℕ
  | .counting _ counted _ totals => if totals.isFullyDrained then counted else []
  | .checkpointing | .dumping => tables
  | _ => []

namespace ExportWorld

variable {options : RuntimeOptions} {drainJournal : Option ℕ} {w w' : ExportWorld}

/-- The step does not come between the count of a journal and the image: no COMMIT leaves a counted row in it, no
statement on its own gives it one, and no count is of a block that hides one. -/
def Undisturbed (options : RuntimeOptions) (w : ExportWorld) : ExportEvent → Prop
  | .runtime (.execute fails) => ∀ entry ∈ w.runtime.queue.head?, (w.runtime.execSql fails entry.2).2.ok = true →
      ∀ table ∈ w.stage.drained options.tables,
        (entry.2 = .commit → Drained table w.runtime.conn.visible) ∧
          ∀ statement ∈ w.runtime.statementOf entry.2, w.runtime.conn.tx = none →
            ¬ statement.Fills w.runtime.conn.visible table
  | .count _ =>
    match w.stage with
    | .counting _ _ (table :: _) totals => totals.isFullyDrained = true →
        Drained table w.runtime.conn.visible → Drained table w.runtime.conn.committed
    | _ => True
  | _ => True

/-- What the connection holds is as it was. -/
structure SameStores (w w' : ExportWorld) : Prop where
  committed : w'.runtime.conn.committed = w.runtime.conn.committed
  visible : w'.runtime.conn.visible = w.runtime.conn.visible

/-- The runtime runs a statement beside the export. -/
structure RunsBeside (w : ExportWorld) (fails : Bool) (c : ℕ) (sql : Sql) (w' : ExportWorld) : Prop where
  executes : w.runtime.Executes fails c sql w'.runtime
  mayClear : ((w.nextStatement.map w.deletes).getD []).all w.mayClear = true
  refused : w'.refused =
    w.refused ++ (((w.nextStatement.map w.deletes).getD []).filter (·.status ≠ .acked)).map JournalRow.mutationId
  stage : w'.stage = w.stage
  landed : w'.landed = w.landed

theorem reads_same (w : ExportWorld) (fails : Bool) (stage : ExportStage) : SameStores w (w.reads fails stage) := by
  have hread : w.runtime.statementOf .readMarker = none := rfl
  have heffect := w.runtime.execRead_effect (fun _ => ⟨true, [], none⟩) fails hread true
  cases heffect with
  | nothing hv hc => exact ⟨hc, hv⟩
  | commit hsql => cases hsql
  | rollback hr => exact absurd hr id
  | alone hs => cases hs
  | inBlock hs => cases hs

/-- A step beside the export runs a statement, ends the process, or leaves the stores as they are. -/
theorem besides_cases {event : RuntimeEvent} (h : w.besides options event = some w') :
    (∃ fails c sql, event = .execute fails ∧ RunsBeside w fails c sql w') ∨
    (w'.runtime.conn = w.runtime.conn.rollback ∧ w'.stage = .idle ∧ w'.landed = w.landed ∧ w'.refused = w.refused) ∨
    (SameStores w w' ∧ w'.stage = w.stage ∧ w'.landed = w.landed ∧ w'.refused = w.refused) := by
  have hcall : ∀ runtime, runtimeStep options w.runtime event = some runtime →
      (∀ fails, event ≠ .execute fails) → event ≠ .crash → (∀ c nowUs restore, event ≠ .boot c nowUs restore) →
      runtime.conn = w.runtime.conn := by
    intro runtime hstep hexecute hcrash hboot
    rcases Runtime.step_cases hstep with ⟨c, hs⟩ | ⟨fails, c, sql, rfl, -⟩ | ⟨rfl, -⟩ | ⟨c, nowUs, restore, rfl, -⟩
    · exact hs.database.conn
    · exact absurd rfl (hexecute fails)
    · exact absurd rfl hcrash
    · exact absurd rfl (hboot c nowUs restore)
  have hsame : ∀ runtime, runtime.conn = w.runtime.conn → SameStores w { w with runtime } :=
    fun runtime hconn => ⟨congrArg Conn.committed hconn, congrArg Conn.visible hconn⟩
  cases event with
  | execute fails =>
    simp only [besides] at h
    split at h
    · rename_i hclear
      obtain ⟨runtime, hstep, rfl⟩ := Option.map_eq_some_iff.mp h
      obtain ⟨c, sql, hexecutes⟩ := Runtime.execute_executes hstep
      exact .inl ⟨fails, c, sql, rfl, hexecutes, hclear, rfl, rfl, rfl⟩
    · cases h
  | crash =>
    obtain rfl := Option.some.inj h
    exact .inr (.inl ⟨rfl, rfl, rfl, rfl⟩)
  | boot c nowUs restore =>
    simp only [besides, runtimeStep] at h
    split at h
    · cases h
    · obtain rfl := Option.some.inj h
      exact .inr (.inl ⟨(Runtime.boot_database options c w.runtime nowUs restore).conn, rfl, rfl, rfl⟩)
  | call c spec nowUs =>
    obtain ⟨runtime, hstep, rfl⟩ := Option.map_eq_some_iff.mp h
    exact .inr (.inr ⟨hsame _ (hcall _ hstep (by simp) (by simp) (by simp)), rfl, rfl, rfl⟩)
  | resume c nowUs =>
    obtain ⟨runtime, hstep, rfl⟩ := Option.map_eq_some_iff.mp h
    exact .inr (.inr ⟨hsame _ (hcall _ hstep (by simp) (by simp) (by simp)), rfl, rfl, rfl⟩)
  | send c =>
    obtain ⟨runtime, hstep, rfl⟩ := Option.map_eq_some_iff.mp h
    exact .inr (.inr ⟨hsame _ (hcall _ hstep (by simp) (by simp) (by simp)), rfl, rfl, rfl⟩)
  | respond c nowUs response retryAtUs =>
    obtain ⟨runtime, hstep, rfl⟩ := Option.map_eq_some_iff.mp h
    exact .inr (.inr ⟨hsame _ (hcall _ hstep (by simp) (by simp) (by simp)), rfl, rfl, rfl⟩)

/-- The three kinds of step, for what is stored. -/
theorem step_cases {event : ExportEvent} (h : w.exportStep options drainJournal event = some w') :
    (∃ fails c sql, event = .runtime (.execute fails) ∧ RunsBeside w fails c sql w') ∨
    (w'.runtime.conn = w.runtime.conn.rollback ∧ w'.stage = .idle ∧ w'.landed = w.landed ∧ w'.refused = w.refused) ∨
    (SameStores w w' ∧ w.landed ⊆ w'.landed ∧ w'.refused = w.refused) := by
  have hstage : ∀ stage, SameStores w { w with stage } ∧ w.landed ⊆ w.landed ∧ w.refused = w.refused :=
    fun stage => ⟨⟨rfl, rfl⟩, List.Subset.refl _, rfl⟩
  have hreads : ∀ fails stage, SameStores w (w.reads fails stage) ∧ w.landed ⊆ (w.reads fails stage).landed ∧
      (w.reads fails stage).refused = w.refused :=
    fun fails stage => ⟨reads_same w fails stage, List.Subset.refl _, rfl⟩
  cases event with
  | runtime event =>
    rcases besides_cases h with ⟨fails, c, sql, rfl, hruns⟩ | hends | ⟨hsame, -, hlanded, hrefused⟩
    · exact .inl ⟨fails, c, sql, rfl, hruns⟩
    · exact .inr (.inl hends)
    · exact .inr (.inr ⟨hsame, hlanded ▸ List.Subset.refl _, hrefused⟩)
  | echo mutationIds =>
    obtain rfl := Option.some.inj h
    exact .inr (.inr ⟨⟨rfl, rfl⟩, List.subset_append_left _ _, rfl⟩)
  | begin =>
    simp only [exportStep] at h
    split at h
    · split at h
      · exact .inr (.inr (Option.some.inj h ▸ hstage _))
      · cases h
    · cases h
  | count fails =>
    simp only [exportStep] at h
    split at h
    · exact .inr (.inr (Option.some.inj h ▸ hreads _ _))
    · exact .inr (.inr (Option.some.inj h ▸ hreads _ _))
    · cases h
  | decide elapsedMs =>
    simp only [exportStep] at h
    split at h
    · exact .inr (.inr (Option.some.inj h ▸ hstage _))
    · exact .inr (.inr (Option.some.inj h ▸ hstage _))
    · cases h
  | flushed =>
    simp only [exportStep] at h
    split at h
    · exact .inr (.inr (Option.some.inj h ▸ hstage _))
    · cases h
  | woke =>
    simp only [exportStep] at h
    split at h
    · exact .inr (.inr (Option.some.inj h ▸ hstage _))
    · cases h
  | checkpoint fails =>
    simp only [exportStep] at h
    split at h
    · exact .inr (.inr (Option.some.inj h ▸ hreads _ _))
    · cases h
  | dump fails =>
    simp only [exportStep] at h
    split at h
    · exact .inr (.inr (Option.some.inj h ▸ hstage _))
    · cases h
  | clone fails =>
    simp only [exportStep] at h
    split at h
    · exact .inr (.inr (Option.some.inj h ▸ hstage _))
    · cases h

/-! ### Drained from the count to the image -/

/-- The journals that the export goes by are drained in the committed store, and so is its image. -/
structure DrainInv (options : RuntimeOptions) (w : ExportWorld) : Prop where
  drained : ∀ table ∈ w.stage.drained options.tables, Drained table w.runtime.conn.committed
  tables : ∀ polled counted todo totals, w.stage = .counting polled counted todo totals →
    counted ++ todo = options.tables
  image : ∀ image ∈ w.stage.image, ∀ table ∈ options.tables, Drained table image.store

/-- A statement that does not disturb keeps the committed journals drained. -/
theorem drained_runs {fails : Bool} {c : ℕ} {sql : Sql} {table : ℕ} (hruns : RunsBeside w fails c sql w')
    (hok : Undisturbed options w (.runtime (.execute fails))) (htable : table ∈ w.stage.drained options.tables)
    (h : Drained table w.runtime.conn.committed) : Drained table w'.runtime.conn.committed := by
  have hhead : w.runtime.queue.head? = some (c, sql) := by rw [hruns.executes.queue, List.head?_cons]
  have hmeets := fun hreply => hok _ hhead hreply table htable
  cases hruns.executes.effect with
  | nothing _ hc => exact hc ▸ h
  | commit hsql hc =>
    rw [hc]
    by_cases hreply : (w.runtime.execSql fails sql).2.ok = true
    · exact (hmeets hreply).1 hsql
    · -- a COMMIT that fails rolls back
      subst hsql
      cases fails with
      | true =>
        have hconn : w'.runtime.conn.committed = w.runtime.conn.committed := by
          rw [hruns.executes.conn]
          rfl
        rw [hc] at hconn
        exact (show w.runtime.conn.visible = _ from hconn) ▸ h
      | false => exact absurd rfl hreply
  | rollback _ hc =>
    rw [hc]
    exact h
  | alone hs he htx hc _ hreply =>
    rw [hc]
    have hvisible : Drained table w.runtime.conn.visible := by
      rw [visible_idle htx]
      exact h
    exact hvisible.exec ((hmeets hreply).2 _ hs htx) he
  | inBlock _ _ _ hc =>
    rw [hc]
    exact h

/-- A stage that goes by no journal and has no image. -/
theorem DrainInv.of_quiet (hdrained : w.stage.drained options.tables = []) (himage : w.stage.image = none)
    (htables : ∀ polled counted todo totals, w.stage = .counting polled counted todo totals →
      counted ++ todo = options.tables) : DrainInv options w := by
  refine ⟨fun table htable => ?_, htables, fun image himage' => ?_⟩
  · rw [hdrained] at htable
    cases htable
  · rw [himage] at himage'
    cases himage'

theorem drainInv_rejected {error : ExportError} (h : w.stage = .rejected error) : DrainInv options w :=
  .of_quiet (by rw [h]; rfl) (by rw [h]; rfl) fun _ _ _ _ hstage => by rw [h] at hstage; cases hstage

theorem drainInv_counting {polled : Bool} (h : w.stage = .counting polled [] options.tables .zero) :
    DrainInv options w := by
  refine .of_quiet (by rw [h]; rfl) (by rw [h]; rfl) fun polled' counted todo totals hstage => ?_
  rw [h] at hstage
  obtain ⟨-, rfl, rfl, -⟩ := ExportStage.counting.inj hstage
  rfl

/-- A stage that is not counting and has the image it had, or none. -/
theorem DrainInv.of_stage (hi : DrainInv options w) (hcommitted : w'.runtime.conn.committed = w.runtime.conn.committed)
    (hdrained : ∀ table ∈ w'.stage.drained options.tables, table ∈ w.stage.drained options.tables)
    (himage : ∀ image ∈ w'.stage.image, image ∈ w.stage.image)
    (htables : ∀ polled counted todo totals, w'.stage = .counting polled counted todo totals →
      counted ++ todo = options.tables) : DrainInv options w' :=
  ⟨fun table htable => hcommitted ▸ hi.drained table (hdrained table htable), htables,
    fun image h => hi.image image (himage image h)⟩

theorem reads_stage (w : ExportWorld) (fails : Bool) (stage : ExportStage) :
    (w.reads fails stage).stage = stage ∨ (w.reads fails stage).stage = .rejected .failed := by
  unfold reads
  dsimp only
  split
  · exact .inl rfl
  · exact .inr rfl

/-- The count of a journal that is drained where it is read, and where it is committed. -/
theorem DrainInv.count {polled : Bool} {counted todo : List ℕ} {table : ℕ} {totals : MutationDiagnostics}
    (hi : DrainInv options w) (hstage : w.stage = .counting polled counted (table :: todo) totals)
    (hok : totals.isFullyDrained = true → Drained table w.runtime.conn.visible →
      Drained table w.runtime.conn.committed) (fails : Bool) :
    DrainInv options (w.reads fails (.counting polled (counted ++ [table]) todo
      (totals.add w.runtime.conn.visible table))) := by
  rcases reads_stage w fails (.counting polled (counted ++ [table]) todo (totals.add w.runtime.conn.visible table))
    with hnext | hnext
  · refine ⟨fun other hother => ?_, fun polled' counted' todo' totals' h => ?_, fun image h => ?_⟩
    · rw [(reads_same w fails _).committed]
      rw [hnext, ExportStage.drained] at hother
      split at hother
      · rename_i hfully
        obtain ⟨htotals, htable⟩ := MutationDiagnostics.isFullyDrained_add.mp hfully
        rcases List.mem_append.mp hother with hother | hother
        · refine hi.drained other ?_
          rw [hstage, ExportStage.drained, if_pos htotals]
          exact hother
        · obtain rfl := List.mem_singleton.mp hother
          exact hok htotals htable
      · cases hother
    · rw [hnext] at h
      obtain ⟨-, rfl, rfl, -⟩ := ExportStage.counting.inj h
      rw [List.append_assoc]
      exact hi.tables _ _ _ _ hstage
    · rw [hnext] at h
      cases h
  · exact drainInv_rejected hnext

theorem DrainInv.step {timeoutMs : ℕ} {event : ExportEvent} (hi : DrainInv options w)
    (hok : Undisturbed options w event) (h : w.exportStep options (some timeoutMs) event = some w') :
    DrainInv options w' := by
  cases event with
  | runtime event =>
    rcases besides_cases h with ⟨fails, c, sql, rfl, hruns⟩ | ⟨-, hidle, -⟩ | ⟨hsame, hstage, -⟩
    · refine ⟨fun table htable => ?_, ?_, ?_⟩
      · rw [hruns.stage] at htable
        exact drained_runs hruns hok htable (hi.drained table htable)
      · rw [hruns.stage]
        exact hi.tables
      · rw [hruns.stage]
        exact hi.image
    · refine .of_quiet (by rw [hidle]; rfl) (by rw [hidle]; rfl) fun _ _ _ _ hstage => ?_
      rw [hidle] at hstage
      cases hstage
    · refine hi.of_stage hsame.committed ?_ ?_ ?_
      · rw [hstage]
        exact fun _ htable => htable
      · rw [hstage]
        exact fun _ himage => himage
      · rw [hstage]
        exact hi.tables
  | echo mutationIds =>
    obtain rfl := Option.some.inj h
    exact ⟨hi.drained, hi.tables, hi.image⟩
  | begin =>
    simp only [exportStep] at h
    split at h
    · split at h
      · obtain rfl := Option.some.inj h
        exact drainInv_counting rfl
      · cases h
    · cases h
  | count fails =>
    simp only [Undisturbed] at hok
    simp only [exportStep] at h
    split at h
    · rename_i polled counted table todo totals hstage
      rw [hstage] at hok
      obtain rfl := Option.some.inj h
      exact hi.count hstage hok fails
    · rename_i image table todo totals hstage
      obtain rfl := Option.some.inj h
      rcases reads_stage w fails (.reporting image todo (totals.add w.runtime.conn.visible table)) with hnext | hnext
      · refine hi.of_stage (reads_same w fails _).committed ?_ ?_ ?_
        · rw [hnext]
          exact fun _ htable => absurd htable List.not_mem_nil
        · rw [hnext, hstage]
          exact fun _ himage => himage
        · rw [hnext]
          exact fun _ _ _ _ hcounting => by cases hcounting
      · exact drainInv_rejected hnext
    · cases h
  | decide elapsedMs =>
    simp only [exportStep] at h
    split at h
    · rename_i polled counted totals hstage
      obtain rfl := Option.some.inj h
      unfold decided
      split
      · exact drainInv_rejected rfl
      split
      · -- every journal has been counted, and none has a counted row
        rename_i hfully
        have htables : counted = options.tables := by
          rw [← hi.tables _ _ _ _ hstage, List.append_nil]
        refine hi.of_stage rfl ?_ ?_ ?_
        · rw [hstage, ExportStage.drained, ExportStage.drained, if_pos hfully, htables]
          exact fun _ htable => htable
        · exact fun _ himage => by cases himage
        · exact fun _ _ _ _ hcounting => by cases hcounting
      split
      · split
        · exact drainInv_rejected rfl
        · exact .of_quiet rfl rfl fun _ _ _ _ hcounting => by cases hcounting
      · exact .of_quiet rfl rfl fun _ _ _ _ hcounting => by cases hcounting
    · rename_i image totals hstage
      obtain rfl := Option.some.inj h
      refine hi.of_stage rfl (fun _ htable => absurd htable List.not_mem_nil) ?_ ?_
      · rw [hstage]
        exact fun _ himage => himage
      · exact fun _ _ _ _ hcounting => by cases hcounting
    · cases h
  | flushed =>
    simp only [exportStep] at h
    split at h
    · obtain rfl := Option.some.inj h
      exact drainInv_counting rfl
    · cases h
  | woke =>
    simp only [exportStep] at h
    split at h
    · obtain rfl := Option.some.inj h
      exact .of_quiet rfl rfl fun _ _ _ _ hcounting => by cases hcounting
    · cases h
  | checkpoint fails =>
    simp only [exportStep] at h
    split at h
    · rename_i hstage
      obtain rfl := Option.some.inj h
      rcases reads_stage w fails .dumping with hnext | hnext
      · refine hi.of_stage (reads_same w fails _).committed ?_ ?_ ?_
        · rw [hnext, hstage]
          exact fun _ htable => htable
        · rw [hnext]
          exact fun _ himage => by cases himage
        · rw [hnext]
          exact fun _ _ _ _ hcounting => by cases hcounting
      · exact drainInv_rejected hnext
    · cases h
  | dump fails =>
    simp only [exportStep] at h
    split at h
    · rename_i hstage
      obtain rfl := Option.some.inj h
      cases fails with
      | true => exact drainInv_rejected rfl
      | false =>
        refine ⟨fun _ htable => absurd htable List.not_mem_nil, fun _ _ _ _ hcounting => (by cases hcounting), ?_⟩
        intro image himage table htable
        obtain rfl := Option.some.inj himage
        refine hi.drained table ?_
        rw [hstage]
        exact htable
    · cases h
  | clone fails =>
    simp only [exportStep] at h
    split at h
    · rename_i image hstage
      obtain rfl := Option.some.inj h
      cases fails with
      | true => exact drainInv_rejected rfl
      | false =>
        refine hi.of_stage rfl (fun _ htable => absurd htable List.not_mem_nil) ?_ ?_
        · rw [hstage]
          exact fun _ himage => himage
        · exact fun _ _ _ _ hcounting => by cases hcounting
    · cases h

theorem drainInv_initial (store : LocalStore) (landed : List ℕ) : DrainInv options (initial store landed) :=
  .of_quiet rfl rfl fun _ _ _ _ hcounting => by cases hcounting

/-! ### Where a mutation is -/

/-- A row of a journal of the client whose write the synced tables can come to hold. -/
def Echoes (options : RuntimeOptions) (row : JournalRow) : Prop :=
  row.tableKey ∈ options.tables ∧ row.writeMode ≠ some .pessimisticBlind

/-- The mutation has a row in the store, has landed, or was refused. -/
def Accounted (options : RuntimeOptions) (w : ExportWorld) (mutationId : ℕ) (store : LocalStore) : Prop :=
  (∃ row ∈ store.journal, row.mutationId = mutationId ∧ Echoes options row) ∨ mutationId ∈ w.landed ∨
    mutationId ∈ w.refused

theorem Accounted.mono {mutationId : ℕ} {store : LocalStore} (h : Accounted options w mutationId store)
    (hlanded : w.landed ⊆ w'.landed) (hrefused : w.refused ⊆ w'.refused) : Accounted options w' mutationId store :=
  h.imp_right (Or.imp (fun h => hlanded h) fun h => hrefused h)

theorem RunsBeside.landed_subset {fails : Bool} {c : ℕ} {sql : Sql} (h : RunsBeside w fails c sql w') :
    w.landed ⊆ w'.landed := h.landed ▸ List.Subset.refl _

theorem RunsBeside.refused_subset {fails : Bool} {c : ℕ} {sql : Sql} (h : RunsBeside w fails c sql w') :
    w.refused ⊆ w'.refused := h.refused ▸ List.subset_append_left _ _

/-- A statement deletes a row whose echo is there, or which was refused. -/
theorem Accounted.exec {fails : Bool} {c : ℕ} {sql : Sql} {mutationId : ℕ} {statement : JournalStatement}
    {store : LocalStore} (hruns : RunsBeside w fails c sql w') (hs : w.runtime.statementOf sql = some statement)
    (he : statement.exec w.runtime.conn.visible = some store)
    (h : Accounted options w mutationId w.runtime.conn.visible) : Accounted options w' mutationId store := by
  rcases h with ⟨row, hrow, hid, hechoes⟩ | hghost
  · by_cases hdeleted : row ∈ w.deletes statement
    · have hnext : w.nextStatement = some statement := by
        rw [nextStatement, hruns.executes.queue, List.head?_cons]
        exact hs
      have hclear := hruns.mayClear
      have hrefused := hruns.refused
      rw [hnext] at hclear hrefused
      have hmay := List.all_eq_true.mp hclear row hdeleted
      by_cases hacked : row.status = .acked
      · -- a reconcile waits for the echo of what it clears
        simp only [mayClear, hacked, hechoes.2, ne_eq, not_true_eq_false, decide_false, Bool.false_or,
          List.contains_eq_mem, decide_eq_true_eq] at hmay
        exact .inr (.inl (hid ▸ hruns.landed_subset hmay))
      · refine .inr (.inr ?_)
        rw [hrefused, List.mem_append]
        exact .inr (List.mem_map.mpr ⟨row, List.mem_filter.mpr ⟨hdeleted, decide_eq_true hacked⟩, hid⟩)
    · obtain ⟨row', hrow', hid', htable, hmode⟩ := JournalStatement.exec_survives he hrow (by
        rintro table status mutationIds rfl
        by_contra hsurvives
        exact hdeleted (List.mem_filter.mpr ⟨hrow, by simpa using hsurvives⟩))
      exact .inl ⟨row', hrow', hid'.trans hid, htable ▸ hechoes.1, hmode ▸ hechoes.2⟩
  · exact (Accounted.mono (.inr hghost) hruns.landed_subset hruns.refused_subset : Accounted options w' _ store)

/-- What is committed is accounted for in what is visible. -/
def Committed (options : RuntimeOptions) (w : ExportWorld) : Prop :=
  ∀ row ∈ w.runtime.conn.committed.journal, Echoes options row →
    Accounted options w row.mutationId w.runtime.conn.visible

theorem committed_of_visible (h : w.runtime.conn.visible = w.runtime.conn.committed) : Committed options w :=
  fun row hrow hechoes => .inl ⟨row, h ▸ hrow, rfl, hechoes⟩

theorem Committed.step {event : ExportEvent} (hi : Committed options w)
    (h : w.exportStep options drainJournal event = some w') : Committed options w' := by
  rcases step_cases h with ⟨fails, c, sql, -, hruns⟩ | ⟨hconn, -⟩ | ⟨hsame, hlanded, hrefused⟩
  · cases hruns.executes.effect with
    | nothing hv hc =>
      intro row hrow hechoes
      rw [hv]
      exact (hi row (hc ▸ hrow) hechoes).mono hruns.landed_subset hruns.refused_subset
    | commit _ hc => exact committed_of_visible (by rw [hc]; rfl)
    | rollback _ hc => exact committed_of_visible (by rw [hc]; rfl)
    | alone _ _ _ hc => exact committed_of_visible (by rw [hc]; rfl)
    | inBlock hs he _ hc =>
      intro row hrow hechoes
      rw [hc] at hrow ⊢
      exact Accounted.exec hruns hs he (hi row hrow hechoes)
  · exact committed_of_visible (by rw [hconn]; rfl)
  · intro row hrow hechoes
    rw [hsame.visible]
    exact (hi row (hsame.committed ▸ hrow) hechoes).mono hlanded (hrefused ▸ List.Subset.refl _)

/-- The mutation is accounted for: in what is committed, in what is visible, and in the image. -/
structure Kept (options : RuntimeOptions) (mutationId : ℕ) (w : ExportWorld) : Prop where
  committed : Accounted options w mutationId w.runtime.conn.committed
  visible : Accounted options w mutationId w.runtime.conn.visible
  image : ∀ image ∈ w.stage.image, (∃ row ∈ image.store.journal, row.mutationId = mutationId ∧ Echoes options row) ∨
    mutationId ∈ image.landed ∨ mutationId ∈ image.refused

/-- The image is the one there was, or the committed store. -/
theorem image_cases {event : ExportEvent} {image : DataDirImage}
    (h : w.exportStep options drainJournal event = some w') (himage : image ∈ w'.stage.image) :
    image ∈ w.stage.image ∨ image = ⟨w.runtime.conn.committed, w.landed, w.refused⟩ := by
  have hreads : ∀ fails stage, image ∈ (w.reads fails stage).stage.image → image ∈ stage.image := by
    intro fails stage himage
    rcases reads_stage w fails stage with hnext | hnext
    · rwa [hnext] at himage
    · rw [hnext] at himage
      cases himage
  cases event with
  | runtime event =>
    rcases besides_cases h with ⟨fails, c, sql, -, hruns⟩ | ⟨-, hidle, -⟩ | ⟨-, hstage, -⟩
    · exact .inl (hruns.stage ▸ himage)
    · rw [hidle] at himage
      cases himage
    · exact .inl (hstage ▸ himage)
  | echo mutationIds =>
    obtain rfl := Option.some.inj h
    exact .inl himage
  | begin =>
    simp only [exportStep] at h
    split at h
    · split at h
      · obtain rfl := Option.some.inj h
        cases drainJournal with
        | none => cases himage
        | some _ => cases himage
      · cases h
    · cases h
  | count fails =>
    simp only [exportStep] at h
    split at h
    · obtain rfl := Option.some.inj h
      cases hreads _ _ himage
    · rename_i hstage
      obtain rfl := Option.some.inj h
      have hkept := hreads _ _ himage
      rw [hstage]
      exact .inl hkept
    · cases h
  | decide elapsedMs =>
    simp only [exportStep] at h
    split at h
    · obtain rfl := Option.some.inj h
      dsimp only [decided] at himage
      split_ifs at himage
      all_goals cases himage
    · rename_i hstage
      obtain rfl := Option.some.inj h
      rw [hstage]
      exact .inl himage
    · cases h
  | flushed =>
    simp only [exportStep] at h
    split at h
    · obtain rfl := Option.some.inj h
      cases himage
    · cases h
  | woke =>
    simp only [exportStep] at h
    split at h
    · obtain rfl := Option.some.inj h
      cases himage
    · cases h
  | checkpoint fails =>
    simp only [exportStep] at h
    split at h
    · obtain rfl := Option.some.inj h
      cases hreads _ _ himage
    · cases h
  | dump fails =>
    simp only [exportStep] at h
    split at h
    · obtain rfl := Option.some.inj h
      cases fails with
      | true => cases himage
      | false => exact .inr (Option.some.inj himage).symm
    · cases h
  | clone fails =>
    simp only [exportStep] at h
    split at h
    · rename_i hstage
      obtain rfl := Option.some.inj h
      cases fails with
      | true => cases himage
      | false =>
        rw [hstage]
        exact .inl himage
    · cases h

theorem Kept.step {mutationId : ℕ} {event : ExportEvent} (hi : Kept options mutationId w)
    (h : w.exportStep options drainJournal event = some w') : Kept options mutationId w' := by
  have himage : ∀ image ∈ w'.stage.image, (∃ row ∈ image.store.journal, row.mutationId = mutationId ∧
      Echoes options row) ∨ mutationId ∈ image.landed ∨ mutationId ∈ image.refused := by
    intro image himage
    rcases image_cases h himage with hold | rfl
    · exact hi.image image hold
    · exact hi.committed
  rcases step_cases h with ⟨fails, c, sql, -, hruns⟩ | ⟨hconn, -, hlanded, hrefused⟩ | ⟨hsame, hlanded, hrefused⟩
  · have hmono : ∀ {store}, Accounted options w mutationId store → Accounted options w' mutationId store :=
      fun h => h.mono hruns.landed_subset hruns.refused_subset
    cases hruns.executes.effect with
    | nothing hv hc => exact ⟨hc ▸ hmono hi.committed, hv ▸ hmono hi.visible, himage⟩
    | commit _ hc => exact ⟨hc ▸ hmono hi.visible, hc ▸ hmono hi.visible, himage⟩
    | rollback _ hc => exact ⟨hc ▸ hmono hi.committed, hc ▸ hmono hi.committed, himage⟩
    | alone hs he _ hc =>
      exact ⟨hc ▸ Accounted.exec hruns hs he hi.visible, hc ▸ Accounted.exec hruns hs he hi.visible, himage⟩
    | inBlock hs he _ hc => exact ⟨hc ▸ hmono hi.committed, hc ▸ Accounted.exec hruns hs he hi.visible, himage⟩
  · have hmono : ∀ {store}, Accounted options w mutationId store → Accounted options w' mutationId store :=
      fun h => h.mono (hlanded ▸ List.Subset.refl _) (hrefused ▸ List.Subset.refl _)
    exact ⟨hconn ▸ hmono hi.committed, hconn ▸ hmono hi.committed, himage⟩
  · have hmono : ∀ {store}, Accounted options w mutationId store → Accounted options w' mutationId store :=
      fun h => h.mono hlanded (hrefused ▸ List.Subset.refl _)
    exact ⟨hsame.committed ▸ hmono hi.committed, hsame.visible ▸ hmono hi.visible, himage⟩

/-- A drain that finds counted rows rejects, at once when none of them drains and else when its time is over. -/
theorem decided_rejects {timeoutMs elapsedMs : ℕ} {polled : Bool} {totals : MutationDiagnostics}
    (h : totals.hasNonDrainableRows = true ∨
      totals.isFullyDrained = false ∧ polled = true ∧ timeoutMs ≤ elapsedMs) :
    ∃ reason, decided (some timeoutMs) polled totals elapsedMs = .rejected (.drain reason totals) := by
  unfold decided
  by_cases hnone : totals.hasNonDrainableRows = true
  · exact ⟨_, if_pos hnone⟩
  · obtain ⟨hdrained, hpolled, htime⟩ := h.resolve_left hnone
    have hover : (some timeoutMs).any (· ≤ elapsedMs) = true := decide_eq_true htime
    rw [if_neg hnone, hdrained, if_neg Bool.false_ne_true, if_pos hpolled, if_pos hover]
    exact ⟨_, rfl⟩

/-- A strict export, beside any run of the runtime: when no step comes between the count of a journal and the image,
the image has no counted row, and every mutation that was committed before it has landed in it or was refused.  A
drain that finds a row that does not drain, or whose time is over, rejects. -/
theorem strict_export (options : RuntimeOptions) (timeoutMs : ℕ) (store : LocalStore) (landed : List ℕ)
    {events events' : List ExportEvent} {w w' : ExportWorld}
    (hok : Meets (exportStep options (some timeoutMs)) (Undisturbed options) (initial store landed) (events ++ events'))
    (hrun : run (exportStep options (some timeoutMs)) (initial store landed) events = some w)
    (hrun' : run (exportStep options (some timeoutMs)) w events' = some w') :
    (∀ image ∈ w'.stage.image,
      (∀ row ∈ image.store.journal, row.tableKey ∈ options.tables → row.status = .rejected) ∧
        (w.stage.image = none → ∀ row ∈ w.runtime.conn.committed.journal, Echoes options row →
          row.mutationId ∈ image.landed ∨ row.mutationId ∈ image.refused ∨
            ∃ row' ∈ image.store.journal, row'.mutationId = row.mutationId ∧ row'.status = .rejected)) ∧
      ∀ polled counted totals elapsedMs, w'.stage = .counting polled counted [] totals →
        totals.hasNonDrainableRows = true ∨ totals.isFullyDrained = false ∧ polled = true ∧ timeoutMs ≤ elapsedMs →
        ∃ reason, w'.exportStep options (some timeoutMs) (.decide elapsedMs) =
          some { w' with stage := .rejected (.drain reason totals) } := by
  have hdrain : ∀ s e s', DrainInv options s → Undisturbed options s e →
      s.exportStep options (some timeoutMs) e = some s' → DrainInv options s' := fun _ _ _ hi ho hs => hi.step ho hs
  have hinv : DrainInv options w' := by
    have hmid := invariant hdrain (drainInv_initial store landed) (meets_of_append hok) hrun
    exact invariant hdrain hmid (meets_append hok hrun) hrun'
  constructor
  · intro image himage
    have hclean : ∀ row ∈ image.store.journal, row.tableKey ∈ options.tables → row.status = .rejected :=
      fun row hrow htable => hinv.image image himage row.tableKey htable row hrow rfl
    refine ⟨hclean, fun hnone row hrow hechoes => ?_⟩
    have hcommitted : Committed options w :=
      invariant_all (fun _ _ _ hi hs => hi.step hs) (committed_of_visible rfl) hrun
    have hkept : Kept options row.mutationId w := by
      refine ⟨.inl ⟨row, hrow, rfl, hechoes⟩, hcommitted row hrow hechoes, fun image' h => ?_⟩
      rw [hnone] at h
      cases h
    have hkept' : Kept options row.mutationId w' := invariant_all (fun _ _ _ hi hs => hi.step hs) hkept hrun'
    rcases hkept'.image image himage with ⟨row', hrow', hid, hechoes'⟩ | hlanded | hrefused
    · exact .inr (.inr ⟨row', hrow', hid, hclean row' hrow' hechoes'.1⟩)
    · exact .inl hlanded
    · exact .inr (.inl hrefused)
  · intro polled counted totals elapsedMs hstage hrejects
    obtain ⟨reason, hdecided⟩ := decided_rejects hrejects
    refine ⟨reason, ?_⟩
    simp only [exportStep, hstage]
    rw [hdecided]

/-! ### Two runs -/

/-- While the export goes by no journal, nothing that the runtime does disturbs it. -/
theorem meets_runtime (events : List RuntimeEvent) (h : w.stage.drained options.tables = []) :
    Meets (exportStep options drainJournal) (Undisturbed options) w (events.map .runtime) := by
  induction events generalizing w with
  | nil => trivial
  | cons event events ih =>
    refine ⟨?_, fun w' hstep => ih ?_⟩
    · cases event with
      | execute fails =>
        intro _ _ _ table htable
        rw [h] at htable
        cases htable
      | _ => trivial
    · rcases besides_cases hstep with ⟨fails, c, sql, -, hruns⟩ | ⟨-, hidle, -⟩ | ⟨-, hstage, -⟩
      · rw [hruns.stage, h]
      · rw [hidle]
        rfl
      · rw [hstage, h]

def oneExport : RuntimeOptions := ⟨[0], 5, 10⟩

/-- A call runs alone: its statements, each with the rest of its work. -/
def ranCall (c statements : ℕ) : List RuntimeEvent :=
  (List.replicate statements [.execute false, .resume c 0]).flatten

def booted : List ExportEvent := (.boot 0 0 false :: ranCall 0 1).map .runtime

/-- A store with one write that the server has applied. -/
def ackedStore : LocalStore := ⟨[⟨3, 0, 7, 0, .acked, none, none, 0, none, 1⟩], some false, Keyed.singleton _⟩

/-- The write's echo lands, and a reconcile clears its row. -/
def reconciled : List ExportEvent := .echo [3] :: (.call 1 (.reconcile 0 [] [3]) 0 :: ranCall 1 4).map .runtime

def drainedFirst : List ExportEvent := [.begin, .count false, .decide 0]

def dumped : List ExportEvent := [.checkpoint false, .dump false, .clone false, .count false, .decide 0]

/-- An export after the reconcile has the write in its image. -/
theorem strict_export_reconciled : ∃ image,
    (∃ w w', run (exportStep oneExport (some 15000)) (initial ackedStore []) booted = some w ∧
      run (exportStep oneExport (some 15000)) w (reconciled ++ drainedFirst ++ dumped) = some w' ∧
      w'.stage = .resolved image .zero) ∧
    image.store.journal = [] ∧ image.landed = [3] ∧
      (3 ∈ image.landed ∨ 3 ∈ image.refused ∨ ∃ row' ∈ image.store.journal, row'.mutationId = 3 ∧ row'.status = .rejected) := by
  have hok : Meets (exportStep oneExport (some 15000)) (Undisturbed oneExport) (initial ackedStore [])
      (booted ++ (reconciled ++ drainedFirst ++ dumped)) := by
    refine (meets_runtime _ rfl).append fun w hw => ?_
    obtain rfl := Option.some.inj hw
    refine Meets.append (Meets.append ?_ fun w hw => ?_) fun w hw => ?_
    · exact meets_cons trivial rfl (meets_runtime _ rfl)
    · obtain rfl := Option.some.inj hw
      exact meets_cons trivial rfl (meets_cons (fun _ h => h) rfl (meets_cons trivial rfl trivial))
    · obtain rfl := Option.some.inj hw
      exact meets_cons trivial rfl (meets_cons trivial rfl (meets_cons trivial rfl (meets_cons trivial rfl
        (meets_cons trivial rfl trivial))))
  refine ⟨_, ⟨_, _, rfl, rfl, rfl⟩, rfl, rfl, ?_⟩
  exact ((strict_export oneExport 15000 ackedStore [] hok rfl rfl).1 _ rfl).2 rfl _ (List.mem_singleton.mpr rfl)
    ⟨List.mem_singleton.mpr rfl, by decide⟩

def emptyStore : LocalStore := ⟨[], some false, .nil, .nil⟩

def draft : JournalRow := ⟨0, 0, 7, 0, .pending, none, none, 0, none, 0⟩

/-- An enqueue that begins after the count and has resolved before the CHECKPOINT. -/
def enqueued : List ExportEvent := (.call 1 (.enqueue [(0, [draft])]) 0 :: ranCall 1 3).map .runtime

/-- The export resolves, and its image has the new write's row and not the write. -/
theorem strict_export_window : ∃ w w' image row,
    run (exportStep oneExport (some 15000)) (initial emptyStore []) (booted ++ drainedFirst ++ enqueued) = some w ∧
    w.runtime.calls 1 = none ∧ w.stage.image = none ∧ row ∈ w.runtime.conn.committed.journal ∧
      row.writeMode ≠ some .pessimisticBlind ∧
    run (exportStep oneExport (some 15000)) w dumped = some w' ∧ (∃ totals, w'.stage = .resolved image totals) ∧
      row ∈ image.store.journal ∧ row.tableKey ∈ oneExport.tables ∧ row.status = .pending ∧
      row.mutationId ∉ image.landed ∧ row.mutationId ∉ image.refused :=
  ⟨_, _, _, { draft with mutationId := 1, mutationSeq := 1 }, rfl, rfl, rfl, List.mem_singleton.mpr rfl, by decide, rfl,
    ⟨_, rfl⟩, List.mem_singleton.mpr rfl, by decide, rfl, List.not_mem_nil, List.not_mem_nil⟩

end ExportWorld

end Mutation
