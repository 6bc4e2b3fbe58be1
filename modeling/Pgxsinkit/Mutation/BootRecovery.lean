/-
What a boot finds: no stranded row behind a clear marker, and nothing of a restored backup in
a request.

The rows a restore boot found are in a terminal status when it is done, and no flush reads
such a row again.  With the invariant of the marker this is `recoveryMarker_covers`.
-/
import Pgxsinkit.Mutation.Custody
import Pgxsinkit.Mutation.RecoveryMarker

namespace Mutation

open Connection Runs

namespace Runtime

variable {options : RuntimeOptions} {w w' : Runtime} {c d : ℕ}

/-! ### The rows of a restored backup -/

/-- The recovered rows stay as they are and away from the senders. -/
structure RecoveredInv (w : Runtime) : Prop where
  fresh : (∀ row ∈ w.conn.committed.journal, row.mutationId < w.nextMutationId) ∧
    ∀ row ∈ w.conn.visible.journal, row.mutationId < w.nextMutationId
  below : ∀ mutationId ∈ w.recovered, mutationId < w.nextMutationId
  terminal : (∀ row ∈ w.conn.committed.journal, row.mutationId ∈ w.recovered →
      row.status.isTerminal = true) ∧
    ∀ row ∈ w.conn.visible.journal, row.mutationId ∈ w.recovered → row.status.isTerminal = true
  held : ∀ c row, w.Held c row → row.mutationId ∉ w.recovered
  requests : ∀ rows ∈ w.requests, ∀ row ∈ rows, row.mutationId ∉ w.recovered

/-- Only the end of a restore adds to the recovered rows. -/
theorem CallStep.recovered_cases (h : CallStep options w c w') :
    w'.recovered = w.recovered ∨
      ∃ todo opened reply, w.calls c = some ⟨.script (some true) todo opened, some reply⟩ ∧
        reply.ok = true ∧ todo.tail = [] ∧ w' = w.finishScript c (some true) := by
  cases h with
  | @scriptDone boot todo opened reply hc hok ht hr =>
    cases boot with
    | none => exact .inl rfl
    | some restore =>
      cases restore with
      | false => exact .inl rfl
      | true => exact .inr ⟨todo, opened, reply, hc, hok, ht, rfl⟩
  | _ => exact .inl rfl

namespace RecoveredInv

theorem callStep (h : RecoveredInv w) (hm : MarkerInv options w) (hs : CallStep options w c w') :
    RecoveredInv w' := by
  have hdb := hs.database
  rcases hs.recovered_cases with hrec | ⟨todo, opened, reply, hc, hok, ht, rfl⟩
  · refine ⟨?_, ?_, ?_, ?_, ?_⟩
    · rw [hdb.conn, hdb.nextMutationId]
      exact h.fresh
    · rw [hrec, hdb.nextMutationId]
      exact h.below
    · rw [hdb.conn, hrec]
      exact h.terminal
    · rw [hrec]
      exact fun d row hheld => h.held d row (hs.held_of hheld)
    · rw [hrec]
      intro rows hrows row hrow
      rcases hs.mem_requests hrows with hrows | hheld
      · exact h.requests rows hrows row hrow
      · exact h.held c row (hheld row hrow)
  · obtain ⟨⟨-, -, htx⟩, hrows⟩ := hm.relies c _ hc
    -- the script is through, so that it has left no row to quarantine
    have hterminal : ∀ row ∈ w.conn.committed.journal, row.status.isTerminal = true := by
      intro row hrow
      rw [← visible_idle htx] at hrow
      refine (hrows (fun answer ha => Option.some.inj ha ▸ hok) row hrow).resolve_right ?_
      rw [remaining, ht]
      exact List.not_mem_nil
    have hvisible : ∀ row ∈ w.conn.visible.journal, row.status.isTerminal = true := by
      rw [visible_idle htx]
      exact hterminal
    refine ⟨h.fresh, ?_, ?_, ?_, ?_⟩
    · intro mutationId hid
      rcases List.mem_append.1 hid with hid | hid
      · exact h.below mutationId hid
      · obtain ⟨row, hrow, rfl⟩ := List.mem_map.1 hid
        exact h.fresh.1 row hrow
    · exact ⟨fun row hrow _ => hterminal row hrow, fun row hrow _ => hvisible row hrow⟩
    · rintro d row ⟨call, hcall, -⟩
      by_cases hdc : d = c
      · rw [hdc] at hcall
        change Function.update w.calls c none c = some call at hcall
        rw [Function.update_self] at hcall
        cases hcall
      · change Function.update w.calls c none d = some call at hcall
        rw [Function.update_of_ne hdc] at hcall
        have hb := hm.closed_of hc (Option.some_ne_none _)
        exact absurd (hm.alone hb d c (by simp [hcall]) (by simp [hc])) hdc
    · exact fun rows hrows => absurd hrows List.not_mem_nil

/-- A statement that a call has issued leaves the recovered rows in their status. -/
theorem terminal_exec (h : RecoveredInv w) (hm : MarkerInv options w) {sql : Sql}
    {statement : JournalStatement} {store : LocalStore} (hq : (c, sql) ∈ w.queue)
    (hs : w.statementOf sql = some statement) (he : statement.exec w.conn.visible = some store) :
    ∀ row ∈ store.journal, row.mutationId ∈ w.recovered → row.status.isTerminal = true := by
  have hmove : ∀ table sources target nextRetryAtUs, (∀ status ∈ sources, status.isTerminal = false) →
      ∀ row ∈ (w.conn.visible.moveStatus table sources target nextRetryAtUs).journal,
        row.mutationId ∈ w.recovered → row.status.isTerminal = true := by
    intro table sources target nextRetryAtUs hsources row' hrow' hrec
    obtain ⟨row, hrow, rfl⟩ := List.mem_map.1 hrow'
    rw [(JournalRow.sameMutation_moveStatus ..).1] at hrec
    have hterm := h.terminal.2 row hrow hrec
    rw [JournalRow.moveStatus_of_status fun hst => by simp [hsources _ hst] at hterm]
    exact hterm
  cases statement with
  | insert rows =>
    intro row hrow hrec
    rw [(JournalStatement.exec_insert he).1] at hrow
    rcases List.mem_append.1 hrow with hrow | hrow
    · exact h.terminal.2 row hrow hrec
    · have hnew := (hm.coherent.inserted false hq hs hrow).2.2.1
      exact absurd (h.below _ hrec) (Nat.not_lt.2 hnew)
  | statusUpdates table updates =>
    cases he
    intro row' hrow' hrec
    obtain ⟨row, hrow, rfl⟩ := List.mem_map.1 hrow'
    rw [(JournalStatement.sameMutation_applyUpdatesIn ..).1] at hrec
    -- the updates name rows that the sender holds
    have hunnamed : updates.find? (fun update => update.mutationId = row.mutationId) = none := by
      refine List.find?_eq_none.2 fun update hu hid => ?_
      obtain ⟨held, hheld, -, heq⟩ := (hm.coherent.issued hq hs).held hu
      exact h.held c held hheld (heq ▸ of_decide_eq_true hid ▸ hrec)
    have hsame : JournalStatement.applyUpdatesIn table updates row = row := by
      unfold JournalStatement.applyUpdatesIn JournalRow.applyUpdates
      rw [hunnamed]
      exact ite_self row
    rw [hsame]
    exact h.terminal.2 row hrow hrec
  | retryFailed table nowUs => exact Option.some.inj he ▸ hmove _ _ _ _ (by decide)
  | recoverSending table nowUs => exact Option.some.inj he ▸ hmove _ _ _ _ (by decide)
  | quarantineRecovered table => exact Option.some.inj he ▸ hmove _ _ _ _ (by decide)
  | delete table status mutationIds =>
    cases he
    exact fun row hrow => h.terminal.2 row (List.mem_of_mem_filter hrow)
  | writeRecoveryRequired required =>
    cases he
    exact h.terminal.2
  | clearRecoveryMarkerIfSettled =>
    cases he
    exact h.terminal.2

theorem executes (h : RecoveredInv w) (hm : MarkerInv options w) {fails : Bool} {sql : Sql}
    (he : Executes w fails c sql w') : RecoveredInv w' := by
  have hq : (c, sql) ∈ w.queue := he.queue ▸ List.mem_cons_self
  have hnext : w.nextMutationId ≤ w'.nextMutationId :=
    he.nextMutationId ▸ execSql_nextMutationId_le w fails sql
  refine ⟨?_, ?_, ?_, ?_, ?_⟩
  · refine he.effect.keeps (P := fun store => ∀ row ∈ store.journal, row.mutationId < w'.nextMutationId)
      (fun row hrow => (h.fresh.1 row hrow).trans_le hnext)
      (fun row hrow => (h.fresh.2 row hrow).trans_le hnext) fun statement store hs hex row' hrow' => ?_
    rcases JournalStatement.mem_exec hex hrow' with ⟨row, hrow, hsame⟩ | ⟨rows, rfl, hrow⟩
    · rw [hsame.1]
      exact (h.fresh.2 row hrow).trans_le hnext
    · exact he.nextMutationId ▸ (hm.coherent.inserted fails hq hs hrow).2.2.2.1
  · rw [he.recovered]
    exact fun mutationId hid => (h.below mutationId hid).trans_le hnext
  · rw [he.recovered]
    exact he.effect.keeps
      (P := fun store => ∀ row ∈ store.journal, row.mutationId ∈ w.recovered →
        row.status.isTerminal = true)
      h.terminal.1 h.terminal.2 fun _ _ hs hex => h.terminal_exec hm hq hs hex
  · rw [he.recovered]
    intro d row hheld hrec
    rcases he.held_of hheld with hheld | ⟨-, hread⟩
    · exact h.held d row hheld hrec
    · obtain ⟨hrow, heligible⟩ := eligible_of_selects (mem_selects hread)
      have hterm := h.terminal.2 row hrow hrec
      revert heligible hterm
      cases row.status <;> decide
  · rw [he.requests, he.recovered]
    exact h.requests

theorem crashed (h : RecoveredInv w) : RecoveredInv w.crashed :=
  ⟨⟨h.fresh.1, h.fresh.1⟩, h.below, ⟨h.terminal.1, h.terminal.1⟩,
    (fun _ _ ⟨_, hc, _⟩ => nomatch hc), h.requests⟩

theorem boots (h : RecoveredInv w) {nowUs : ℕ} {restore : Bool} :
    RecoveredInv (w.crashed.bootCall options c nowUs restore) := by
  have hissue : ∀ sql program, (⟨program, none⟩ : Call).held = [] →
      RecoveredInv (w.crashed.issue c sql program) := by
    intro sql program hheld
    refine ⟨⟨h.fresh.1, h.fresh.1⟩, h.below, ⟨h.terminal.1, h.terminal.1⟩, ?_, h.requests⟩
    rintro d row ⟨call, hcall, hrow⟩
    obtain ⟨rfl, rfl⟩ | ⟨-, hd⟩ := update_eq_some.1 hcall
    · rw [hheld] at hrow
      exact absurd hrow List.not_mem_nil
    · cases hd
  unfold bootCall
  split
  · cases hs : recoverSending options nowUs ++ quarantineRecovered options ++
      [.statement .clearRecoveryMarkerIfSettled] with
    | nil => simp at hs
    | cons sql todo => exact hissue _ _ rfl
  · exact hissue _ _ rfl

end RecoveredInv

/-! ### Runs -/

/-- The step takes no marker back: no ROLLBACK, and no failing COMMIT, leaves a marker that
reads false where the block it ends had one that does not. -/
def KeepsMarker (w : Runtime) (event : RuntimeEvent) : Prop :=
  ∀ fails c sql queue, event = .execute fails → w.queue = (c, sql) :: queue →
    w.RollsBack fails sql → w.conn.visible.RecoveryRequired → w.conn.committed.RecoveryRequired

theorem recoveryInv_step {event : RuntimeEvent} (h : MarkerInv options w ∧ RecoveredInv w)
    (hk : KeepsMarker w event) (hs : runtimeStep options w event = some w') :
    MarkerInv options w' ∧ RecoveredInv w' := by
  obtain ⟨hm, hr⟩ := h
  rcases step_cases hs with ⟨c, hs⟩ | ⟨fails, c, sql, rfl, he⟩ | ⟨-, rfl⟩ |
    ⟨c, nowUs, restore, -, -, rfl⟩
  · exact ⟨hm.callStep hs, hr.callStep hm hs⟩
  · exact ⟨hm.executes he (hk fails c sql w'.queue rfl he.queue), hr.executes hm he⟩
  · exact ⟨hm.crashed, hr.crashed⟩
  · exact ⟨hm.boots, hr.boots⟩

theorem recoveryInv_initial {store : LocalStore}
    (hknown : ∀ row ∈ store.journal, row.tableKey ∈ options.tables) (hcovered : store.Covered) :
    MarkerInv options (initial store) ∧ RecoveredInv (initial store) := by
  refine ⟨⟨Coherent.initial store, ⟨hcovered, hcovered⟩, ⟨hknown, hknown⟩, (fun hd => nomatch hd),
    (fun _ _ hc => nomatch hc), (fun _ _ hc => nomatch hc), fun _ _ _ hc => absurd rfl hc⟩, ?_⟩
  exact ⟨⟨fun row hrow => lt_above _ hrow, fun row hrow => lt_above _ hrow⟩,
    fun _ hid => absurd hid List.not_mem_nil,
    ⟨fun _ _ hid => absurd hid List.not_mem_nil, fun _ _ hid => absurd hid List.not_mem_nil⟩,
    (fun _ _ ⟨_, hc, _⟩ => nomatch hc), fun _ hrows => absurd hrows List.not_mem_nil⟩

end Runtime

/-- The recovery marker covers the rows that are `sending`, in every state that a run reaches
on a store whose marker covered them at its start, as long as no step takes a marker back.  A
boot that finds the marker false then finds no row `sending`, and no request carries a row
that a completed restore boot recovered. -/
theorem recoveryMarker_covers {options : RuntimeOptions} {store : LocalStore}
    (hknown : ∀ row ∈ store.journal, row.tableKey ∈ options.tables) (hcovered : store.Covered)
    {events : List RuntimeEvent} {w : Runtime}
    (hkeeps : Meets (runtimeStep options) Runtime.KeepsMarker (.initial store) events)
    (hrun : run (runtimeStep options) (.initial store) events = some w) :
    w.conn.committed.Covered ∧
    (∀ c reply, w.calls c = some ⟨.bootReading, some reply⟩ → reply.ok = true →
      reply.marker = some false → ∀ row ∈ w.conn.committed.journal, row.status ≠ .sending) ∧
    ∀ rows ∈ w.requests, ∀ row ∈ rows, row.mutationId ∉ w.recovered := by
  obtain ⟨hm, hr⟩ := invariant (fun _ _ _ => Runtime.recoveryInv_step)
    (Runtime.recoveryInv_initial hknown hcovered) hkeeps hrun
  refine ⟨hm.covered.1, fun c reply hc hok hfalse row hrow hs => ?_, hr.requests⟩
  obtain ⟨htx, hmarker⟩ := hm.relies c _ hc
  have hrequired := hm.covered.1 row hrow hs
  rw [LocalStore.RecoveryRequired, ← visible_idle htx, ← hmarker hok] at hrequired
  exact hrequired hfalse

/-! ### Two runs -/

def oneTable : RuntimeOptions := ⟨[0], 5, 10⟩

def newMutation : JournalRow := ⟨0, 0, 7, 0, .pending, none, none, 0, none, 1⟩

def settledStore : LocalStore := ⟨[], some false, by decide⟩

/-- A backup with a row in flight, whose marker says so. -/
def backupStore : LocalStore := ⟨[{ newMutation with status := .sending }], some true, by decide⟩

theorem keepsMarker_of_tx {w : Runtime} (h : w.conn.tx = none) (event : RuntimeEvent) :
    w.KeepsMarker event := by
  intro fails c sql queue _ _ _ hv
  rwa [visible_idle h] at hv

def restoreBoot : List RuntimeEvent :=
  [.boot 0 5 true, .execute false, .resume 0 5, .execute false, .resume 0 5, .execute false,
    .resume 0 5]

/-- The restore boot of that backup: its row is quarantined, and never sent. -/
theorem recoveryMarker_covers_restore :
    ∃ w, run (runtimeStep oneTable) (.initial backupStore) restoreBoot = some w ∧
      w.recovered = [0] ∧ w.conn.committed.Covered ∧
      ∀ rows ∈ w.requests, ∀ row ∈ rows, row.mutationId ∉ w.recovered := by
  have hkeeps : Meets (runtimeStep oneTable) Runtime.KeepsMarker (.initial backupStore)
      restoreBoot := by
    refine ⟨keepsMarker_of_tx rfl _, fun w h => ?_⟩
    obtain rfl := Option.some.inj h
    refine ⟨keepsMarker_of_tx rfl _, fun w h => ?_⟩
    obtain rfl := Option.some.inj h
    refine ⟨keepsMarker_of_tx rfl _, fun w h => ?_⟩
    obtain rfl := Option.some.inj h
    refine ⟨keepsMarker_of_tx rfl _, fun w h => ?_⟩
    obtain rfl := Option.some.inj h
    refine ⟨keepsMarker_of_tx rfl _, fun w h => ?_⟩
    obtain rfl := Option.some.inj h
    refine ⟨keepsMarker_of_tx rfl _, fun w h => ?_⟩
    obtain rfl := Option.some.inj h
    exact ⟨keepsMarker_of_tx rfl _, fun w h => trivial⟩
  obtain ⟨hcovered, -, hrequests⟩ := recoveryMarker_covers
    (by simp [backupStore, newMutation, oneTable])
    (fun _ _ _ => by simp [LocalStore.RecoveryRequired, backupStore]) hkeeps rfl
  exact ⟨_, rfl, rfl, hcovered, hrequests⟩

/-- One enqueue has committed a row, and a second one is in its block.  A flush writes the
marker inside that block, the INSERT of the block fails and its ROLLBACK takes the marker
back, and the UPDATE to `sending` then commits by itself.  The process ends there, and the
next one skips the recovery. -/
def markerInRolledBackBlock : List RuntimeEvent :=
  [.boot 0 0 false, .execute false, .resume 0 0,
    .call 1 (.enqueue [(0, [newMutation])]) 0, .execute false, .resume 1 0, .execute false,
    .resume 1 0, .execute false, .resume 1 0,
    .call 2 (.enqueue [(0, [newMutation])]) 0, .execute false,
    .call 3 (.flush [0]) 0, .resume 3 0, .execute false, .resume 3 0, .resume 3 0, .execute false,
    .resume 2 0, .execute true, .resume 2 0, .resume 3 0, .execute false, .execute false,
    .crash, .boot 4 0 false, .execute false, .resume 4 0]

/-- The marker reads false while a row is `sending`, and the boot leaves it there. -/
theorem recoveryMarker_taken_back : ∃ w,
    run (runtimeStep oneTable) (.initial settledStore) markerInRolledBackBlock = some w ∧
      settledStore.Covered ∧ ¬ w.conn.committed.Covered ∧ w.booted = true := by
  have hrun : (run (runtimeStep oneTable) (.initial settledStore) markerInRolledBackBlock).map
      (fun w => (w.conn.committed.journal.map JournalRow.status, w.conn.committed.recoveryRequired,
        w.booted)) = some ([.sending], some false, true) := by decide
  obtain ⟨w, hw, heq⟩ := Option.map_eq_some_iff.1 hrun
  obtain ⟨hstatus, hmarker, hbooted⟩ : _ ∧ _ ∧ _ := by simpa only [Prod.mk.injEq] using heq
  refine ⟨w, hw, fun row hrow => absurd hrow List.not_mem_nil, fun hcovered => ?_, hbooted⟩
  have hmem : MutationStatus.sending ∈ w.conn.committed.journal.map JournalRow.status := by
    rw [hstatus]
    exact List.mem_cons_self
  obtain ⟨row, hrow, hs⟩ := List.mem_map.1 hmem
  exact hcovered row hrow hs hmarker

end Mutation
