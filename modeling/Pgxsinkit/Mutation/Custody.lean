/-
Senders that have their rows for themselves.

`Serialized` excludes the steps that take a row away from the sender that holds it: a read of
a row another sender holds, a recovery of it, and a ROLLBACK of a block in which a status was
written.  In a run of serialized steps the rows of a sender have the status it takes them to
have, and nobody else writes them.
-/
import Pgxsinkit.Mutation.Held

namespace Mutation

open Connection Runs

namespace Runtime

variable {options : RuntimeOptions} {w w' : Runtime} {c d : ℕ} {start : List MutationStatus}

/-- The step leaves the rows of every sender to it, and what it reads is in one of the
statuses of `start`. -/
structure Serialized (start : List MutationStatus) (w : Runtime) (fails : Bool) (sql : Sql) :
    Prop where
  reads : ∀ row ∈ sql.selects w.conn.visible, row.status ∈ start ∧
    ∀ d held, w.Held d held → held.mutationId ≠ row.mutationId
  recovers : ∀ statement, w.statementOf sql = some statement → ∀ d held row, w.Held d held →
    row ∈ w.conn.visible.journal → row.mutationId = held.mutationId →
    statement.recovers row = false
  rollbacks : w.RollsBack fails sql → ∀ statement ∈ w.block, statement.writesStatus = false

/-- The status that a sender takes a row of its to have: read and not marked yet, or marked. -/
def Expected (start : List MutationStatus) (call : Call) (row : JournalRow) : Prop :=
  (call.Unmarked row.tableKey → row.status ∈ start) ∧
    (¬ call.Unmarked row.tableKey → row.status = .sending)

structure Custody (options : RuntimeOptions) (start : List MutationStatus) (w : Runtime) :
    Prop where
  coherent : Coherent options w
  fresh : (∀ row ∈ w.conn.committed.journal, row.mutationId < w.nextMutationId) ∧
    ∀ row ∈ w.conn.visible.journal, row.mutationId < w.nextMutationId
  heldFresh : ∀ c held, w.Held c held → held.mutationId < w.nextMutationId
  exclusive : ∀ c d held held', w.Held c held → w.Held d held' →
    held.mutationId = held'.mutationId → c = d
  expected : ∀ c call held row, w.calls c = some call → held ∈ call.held →
    row ∈ w.conn.visible.journal → row.mutationId = held.mutationId →
    row.SameMutation held ∧ Expected start call row
  present : ∀ c held, w.Held c held →
    (∀ row ∈ w.conn.visible.journal, row.mutationId ≠ held.mutationId) →
    ∀ row ∈ w.conn.committed.journal, row.mutationId ≠ held.mutationId
  agrees : (∀ statement ∈ w.block, statement.writesStatus = false) →
    ∀ row ∈ w.conn.committed.journal, ∀ row' ∈ w.conn.visible.journal,
      row'.mutationId = row.mutationId → row' = row

/-- Rows of one journal with one id are one row. -/
theorem eq_of_mutationId {store : LocalStore} {row row' : JournalRow} (h : row ∈ store.journal)
    (h' : row' ∈ store.journal) (hid : row'.mutationId = row.mutationId) : row' = row :=
  List.inj_on_of_nodup_map store.keyed.1 h' h hid

namespace Custody

theorem callStep (h : Custody options start w) (hs : CallStep options w c w') :
    Custody options start w' := by
  have hdb := hs.database
  refine ⟨h.coherent.callStep hs, ?_, ?_, ?_, ?_, ?_, ?_⟩
  · rw [hdb.conn, hdb.nextMutationId]
    exact h.fresh
  · rw [hdb.nextMutationId]
    exact fun d held hheld => h.heldFresh d held (hs.held_of hheld)
  · exact fun d e held held' hd he => h.exclusive d e held held' (hs.held_of hd) (hs.held_of he)
  · rw [hdb.conn]
    intro d call' held row hd hheld hrow hid
    obtain ⟨call, hcall, heq, hunmarked⟩ := hs.held_cases hd hheld
    obtain ⟨hsame, hexp⟩ := h.expected d call held row hcall (heq ▸ hheld) hrow hid
    refine ⟨hsame, fun hu => hexp.1 ?_, fun hu => hexp.2 ?_⟩
    · rw [hsame.2.1] at hu ⊢
      exact hunmarked.1 hu
    · rw [hsame.2.1] at hu ⊢
      exact fun hn => hu (hunmarked.2 hn)
  · rw [hdb.conn]
    exact fun d held hheld => h.present d held (hs.held_of hheld)
  · rw [hdb.conn, hdb.block]
    exact h.agrees

/-! ### Statements on the journals -/

end Custody

/-- What a statement of a call may have done to a row: what the status machine allows, or the
marking of a row; the rows that the other calls hold stay as these take them to be. -/
structure Moved (start : List MutationStatus) (w : Runtime) (c : ℕ) (statement : JournalStatement)
    (row row' : JournalRow) : Prop where
  same : row'.SameMutation row
  quiet : statement.writesStatus = false → row' = row
  change : row' = row ∨ isValidMutationTransition row.status row'.status = true ∨
    row.status ∈ start ∧ row'.status = .sending
  others : ∀ d call held, w.calls d = some call → held ∈ call.held →
    held.mutationId = row.mutationId → d ≠ c → Expected start call row'

namespace Custody

variable {statement : JournalStatement} {row : JournalRow}

theorem moved_refl (h : Custody options start w) (hrow : row ∈ w.conn.visible.journal) :
    Moved start w c statement row row :=
  ⟨JournalRow.SameMutation.refl row, fun _ => rfl, .inl rfl,
    fun d call held hd hmem hid _ => (h.expected d call held row hd hmem hrow hid.symm).2⟩

/-- An UPDATE by status.  It touches no row that is held, or one that its sender has still to
mark. -/
theorem moved_moveStatus (h : Custody options start w) (hrow : row ∈ w.conn.visible.journal)
    {table : ℕ} {sources : List MutationStatus} {target : MutationStatus}
    {nextRetryAtUs : Option ℕ} (hwrites : statement.writesStatus = true)
    (hvalid : ∀ source ∈ sources, isValidMutationTransition source target = true)
    (hheld : ∀ d held, w.Held d held → row.mutationId = held.mutationId →
      row.tableKey = table → row.status ∈ sources → row.status ≠ .sending ∧ target ∈ start) :
    Moved start w c statement row (row.moveStatus table sources target nextRetryAtUs) := by
  have hsame := JournalRow.sameMutation_moveStatus table sources target nextRetryAtUs row
  refine ⟨hsame, (by simp [hwrites]), ?_, ?_⟩
  · by_cases hm : row.tableKey = table ∧ row.status ∈ sources
    · rw [JournalRow.moveStatus_moved hm.1 hm.2]
      exact .inr (.inl (hvalid _ hm.2))
    · exact .inl (by rw [JournalRow.moveStatus, if_neg hm])
  · intro d call held hd hmem hid _
    obtain ⟨-, hexp⟩ := h.expected d call held row hd hmem hrow hid.symm
    by_cases hm : row.tableKey = table ∧ row.status ∈ sources
    · obtain ⟨hne, htarget⟩ := hheld d held ⟨call, hd, hmem⟩ hid.symm hm.1 hm.2
      refine ⟨fun _ => ?_, fun hu => absurd (hexp.2 (hsame.2.1 ▸ hu)) hne⟩
      rw [JournalRow.moveStatus_moved hm.1 hm.2]
      exact htarget
    · rw [JournalRow.moveStatus, if_neg hm]
      exact hexp

/-- The rows that no update names stay as they are. -/
theorem applyUpdatesIn_unnamed {table : ℕ} {updates : List MutationStatusUpdate}
    (h : ∀ update ∈ updates, update.mutationId ≠ row.mutationId) :
    JournalStatement.applyUpdatesIn table updates row = row := by
  have hfind : updates.find? (fun update => update.mutationId = row.mutationId) = none :=
    List.find?_eq_none.2 fun update hu hid => h update hu (of_decide_eq_true hid)
  unfold JournalStatement.applyUpdatesIn JournalRow.applyUpdates
  rw [hfind]
  exact ite_self row

/-- An UPDATE of rows that the call holds. -/
theorem moved_updates (h : Custody options start w) (hrow : row ∈ w.conn.visible.journal)
    {table : ℕ} {updates : List MutationStatusUpdate}
    (hi : Issued options w c (.statusUpdates table updates))
    (hvalid : ∀ update ∈ updates, row.tableKey = table → row.mutationId = update.mutationId →
      isValidMutationTransition row.status update.status = true ∨
        row.status ∈ start ∧ update.status = .sending) :
    Moved start w c (.statusUpdates table updates) row
      (JournalStatement.applyUpdatesIn table updates row) := by
  refine ⟨JournalStatement.sameMutation_applyUpdatesIn table updates row,
    (fun hw => nomatch hw), ?_, ?_⟩
  · unfold JournalStatement.applyUpdatesIn JournalRow.applyUpdates
    split
    · next ht =>
      split
      · exact .inl rfl
      · next update hf =>
        have hid := List.find?_some hf
        exact .inr (hvalid update (List.mem_of_find?_eq_some hf) ht (of_decide_eq_true hid).symm)
    · exact .inl rfl
  · intro d call held hd hmem hid hne
    rw [applyUpdatesIn_unnamed fun update hu heq => ?_]
    · exact (h.expected d call held row hd hmem hrow hid.symm).2
    · obtain ⟨own, hown, -, hown'⟩ := hi.held hu
      refine hne (h.exclusive d c held own ⟨call, hd, hmem⟩ hown ?_)
      rw [hid, hown', heq]

/-- What the UPDATE of a sender names is in the status that the sender takes it to have. -/
theorem expected_update (h : Custody options start w) (hrow : row ∈ w.conn.visible.journal)
    {call : Call} (hc : w.calls c = some call) (held : JournalRow) (hheld : held ∈ call.held)
    (hid : row.mutationId = held.mutationId) : Expected start call row :=
  (h.expected c call held row hc hheld hrow hid).2

/-- A row that a statement leaves is a new one, or one that was there and was moved. -/
theorem statement_moves (h : Custody options start w) (hpending : .pending ∈ start) {fails : Bool}
    {sql : Sql} {store : LocalStore} (hser : Serialized start w fails sql)
    (hq : (c, sql) ∈ w.queue) (hs : w.statementOf sql = some statement)
    (he : statement.exec w.conn.visible = some store) {row' : JournalRow}
    (hrow' : row' ∈ store.journal) :
    (∃ rows, statement = .insert rows ∧ row' ∈ rows) ∨
      ∃ row ∈ w.conn.visible.journal, Moved start w c statement row row' := by
  have hi := h.coherent.issued hq hs
  have hrecovers := hser.recovers statement hs
  cases statement with
  | insert rows =>
    rw [(JournalStatement.exec_insert he).1] at hrow'
    rcases List.mem_append.1 hrow' with hrow | hrow
    · exact .inr ⟨row', hrow, h.moved_refl hrow⟩
    · exact .inl ⟨rows, rfl, hrow⟩
  | statusUpdates table updates =>
    cases he
    obtain ⟨row, hrow, rfl⟩ := List.mem_map.1 hrow'
    refine .inr ⟨row, hrow, h.moved_updates hrow hi fun update hu ht hid => ?_⟩
    cases hi with
    | @mark route rows table todo hc =>
      obtain ⟨own, hown, rfl⟩ := List.mem_map.1 hu
      have hown := List.mem_filter.1 hown
      have hexp := h.expected_update hrow hc own hown.1 hid
      exact .inr ⟨hexp.1 (ht ▸ List.mem_cons_self), rfl⟩
    | @settle route rows updates table todo hc =>
      have hmem := List.mem_filter.1 hu
      obtain ⟨own, hown, heq⟩ := List.any_eq_true.1 hmem.2
      have hown := List.mem_filter.1 hown
      have hheld : own ∈ (⟨.sender route (.settling rows updates table todo), none⟩ : Call).held :=
        List.mem_filter.2 ⟨hown.1, decide_eq_true (of_decide_eq_true hown.2 ▸ List.mem_cons_self)⟩
      have hexp := h.expected_update hrow hc _ hheld (hid.trans (of_decide_eq_true heq).symm)
      rw [hexp.2 id]
      exact .inl ((h.coherent.fits c _ hc).2 update hmem.1)
    | script hc ha => exact ha.elim
  | retryFailed table nowUs =>
    cases he
    obtain ⟨row, hrow, rfl⟩ := List.mem_map.1 hrow'
    refine .inr ⟨row, hrow, h.moved_moveStatus hrow rfl (by decide) fun d held _ _ _ hst => ?_⟩
    rw [List.mem_singleton.1 hst]
    exact ⟨by decide, hpending⟩
  | recoverSending table nowUs =>
    cases he
    obtain ⟨row, hrow, rfl⟩ := List.mem_map.1 hrow'
    refine .inr ⟨row, hrow, h.moved_moveStatus hrow rfl (by decide) fun d held hd hid ht hst => ?_⟩
    have hn := hrecovers d held row hd hrow hid
    simp [JournalStatement.recovers, ht, List.mem_singleton.1 hst] at hn
  | quarantineRecovered table =>
    cases he
    obtain ⟨row, hrow, rfl⟩ := List.mem_map.1 hrow'
    refine .inr ⟨row, hrow, h.moved_moveStatus hrow rfl (by decide) fun d held hd hid ht hst => ?_⟩
    have hn := hrecovers d held row hd hrow hid
    rw [JournalStatement.recovers, Bool.and_eq_false_iff] at hn
    rcases hn with hn | hn
    · exact absurd ht (of_decide_eq_false hn)
    · rw [List.contains_iff_mem.2 hst] at hn
      cases hn
  | delete table status mutationIds =>
    cases he
    have hrow := List.mem_of_mem_filter hrow'
    exact .inr ⟨row', hrow, h.moved_refl hrow⟩
  | writeRecoveryRequired required =>
    cases he
    exact .inr ⟨row', hrow', h.moved_refl hrow'⟩
  | clearRecoveryMarkerIfSettled =>
    cases he
    exact .inr ⟨row', hrow', h.moved_refl hrow'⟩

/-- The sender whose statement ran takes its rows to have the status they have now. -/
theorem expected_own (h : Custody options start w) {fails : Bool} {sql : Sql} {store : LocalStore}
    {program : Program} (hc : w.calls c = some ⟨program, none⟩) (ha : program.Awaits sql)
    (hs : w.statementOf sql = some statement) (he : statement.exec w.conn.visible = some store)
    (hok : (w.execSql fails sql).2.ok = true) {held row' : JournalRow}
    (hheld : held ∈ (⟨program, some (w.execSql fails sql).2⟩ : Call).held)
    (hrow' : row' ∈ store.journal) (hid : row'.mutationId = held.mutationId) :
    row'.SameMutation held ∧
      Expected start ⟨program, some (w.execSql fails sql).2⟩ row' := by
  cases program with
  | script boot todo opened => exact absurd hheld List.not_mem_nil
  | bootReading => exact absurd hheld List.not_mem_nil
  | settle => exact absurd hheld List.not_mem_nil
  | sender route stage =>
    cases stage with
    | waiting => exact absurd ha (not_awaits_waiting _ _)
    | entering rows todo => exact absurd ha (not_awaits_entering _ _ _ _)
    | authorizing rows => exact absurd ha (not_awaits_authorizing _ _ _)
    | inFlight rows => exact absurd ha (not_awaits_inFlight _ _ _)
    | reading =>
      cases route with
      | batch tables =>
        obtain ⟨nowUs, batchSize, rfl⟩ := ha
        cases hs
      | unit unitId =>
        obtain rfl : sql = .readUnit unitId := ha
        cases hs
    | marking rows table todo marker =>
      cases marker with
      | true =>
        obtain rfl : sql = .statement (.writeRecoveryRequired true) := by cases route <;> exact ha
        cases hs
        cases he
        have hexp := h.expected c _ held row' hc hheld hrow' hid
        exact hexp
      | false =>
        obtain rfl : sql = markSendingUpdate rows table := by cases route <;> exact ha
        cases hs
        cases he
        obtain ⟨row, hrow, rfl⟩ := List.mem_map.1 hrow'
        have hupdated :=
          JournalStatement.sameMutation_applyUpdatesIn table (markSendingUpdates rows table) row
        have hid : row.mutationId = held.mutationId := hupdated.1.symm.trans hid
        have ⟨hsame, hexp⟩ := h.expected c _ held row hc hheld hrow hid
        have hnodup : table ∉ todo := (List.nodup_cons.1 (h.coherent.fits c _ hc)).1
        refine ⟨⟨hupdated.1.trans hsame.1, hupdated.2.1.trans hsame.2.1,
          hupdated.2.2.1.trans hsame.2.2.1, hupdated.2.2.2.trans hsame.2.2.2⟩, ?_⟩
        by_cases ht : row.tableKey = table
        · -- a row of the marked table is named by one of the updates, all of them to `sending`
          have hmarked : (JournalStatement.applyUpdatesIn table (markSendingUpdates rows table)
              row).status = .sending := by
            unfold JournalStatement.applyUpdatesIn JournalRow.applyUpdates
            rw [if_pos ht]
            split
            · next hf =>
              have hmem : (⟨held.mutationId, .sending, held.attemptCount + 1, none⟩ :
                  MutationStatusUpdate) ∈ markSendingUpdates rows table :=
                List.mem_map.2 ⟨held, List.mem_filter.2 ⟨hheld, decide_eq_true
                  (hsame.2.1.symm.trans ht)⟩, rfl⟩
              exact absurd (decide_eq_true hid.symm) (List.find?_eq_none.1 hf _ hmem)
            · next update hf =>
              obtain ⟨own, -, rfl⟩ := List.mem_map.1 (List.mem_of_find?_eq_some hf)
              rfl
          refine ⟨fun hu => ?_, fun _ => hmarked⟩
          rw [hupdated.2.1, ht] at hu
          rcases hu with hu | ⟨-, hu⟩
          · exact absurd hu hnodup
          · rw [hok] at hu
            cases hu
        · have hkept : JournalStatement.applyUpdatesIn table (markSendingUpdates rows table) row =
              row := if_neg ht
          rw [hkept]
          refine ⟨fun hu => hexp.1 ?_, fun hu => hexp.2 fun hn => hu ?_⟩
          · rcases hu with hu | ⟨hu, -⟩
            · exact List.mem_cons_of_mem _ hu
            · exact absurd hu ht
          · exact .inl ((List.mem_cons.1 hn).resolve_left ht)
    | settling rows updates table todo =>
      obtain rfl : sql = .statement (.statusUpdates table (settleUpdates updates rows table)) := by
        cases route <;> exact ha
      cases hs
      cases he
      obtain ⟨row, hrow, rfl⟩ := List.mem_map.1 hrow'
      have hupdated :=
        JournalStatement.sameMutation_applyUpdatesIn table (settleUpdates updates rows table) row
      have hid : row.mutationId = held.mutationId := hupdated.1.symm.trans hid
      have hmem := List.mem_filter.1 hheld
      have htodo : held.tableKey ∈ todo := of_decide_eq_true hmem.2
      have hheld : held ∈ (⟨.sender route (.settling rows updates table todo), none⟩ : Call).held :=
        List.mem_filter.2 ⟨hmem.1, decide_eq_true (List.mem_cons_of_mem _ htodo)⟩
      obtain ⟨hsame, hexp⟩ := h.expected c _ held row hc hheld hrow hid
      have hnodup : table ∉ todo := (List.nodup_cons.1 (h.coherent.fits c _ hc).1).1
      have ht : row.tableKey ≠ table := fun ht => hnodup (ht ▸ hsame.2.1 ▸ htodo)
      have hkept : JournalStatement.applyUpdatesIn table (settleUpdates updates rows table) row =
          row := if_neg ht
      rw [hkept]
      exact ⟨hsame, hexp⟩

/-- A sender whose statement failed, or was no statement on the journals, takes its rows as
before, and those that it has read to be there. -/
theorem expected_kept (h : Custody options start w) {fails : Bool} {sql : Sql}
    (hser : Serialized start w fails sql) {program : Program}
    (hc : w.calls c = some ⟨program, none⟩) (ha : program.Awaits sql)
    (hok : (w.execSql fails sql).2.ok = true → w.statementOf sql = none) {held row : JournalRow}
    (hheld : held ∈ (⟨program, some (w.execSql fails sql).2⟩ : Call).held)
    (hrow : row ∈ w.conn.visible.journal) (hid : row.mutationId = held.mutationId) :
    row.SameMutation held ∧ Expected start ⟨program, some (w.execSql fails sql).2⟩ row := by
  cases program with
  | script boot todo opened => exact absurd hheld List.not_mem_nil
  | bootReading => exact absurd hheld List.not_mem_nil
  | settle => exact absurd hheld List.not_mem_nil
  | sender route stage =>
    cases stage with
    | waiting => exact absurd ha (not_awaits_waiting _ _)
    | entering rows todo => exact absurd ha (not_awaits_entering _ _ _ _)
    | authorizing rows => exact absurd ha (not_awaits_authorizing _ _ _)
    | inFlight rows => exact absurd ha (not_awaits_inFlight _ _ _)
    | reading =>
      have hread := mem_selects hheld
      obtain rfl := eq_of_mutationId (eligible_of_selects hread).1 hrow hid
      exact ⟨JournalRow.SameMutation.refl row, fun _ => (hser.reads row hread).1,
        fun hn => absurd trivial hn⟩
    | marking rows table todo marker =>
      cases marker with
      | true =>
        have hexp := h.expected c _ held row hc hheld hrow hid
        exact hexp
      | false =>
        obtain rfl : sql = markSendingUpdate rows table := by cases route <;> exact ha
        have hfail : (w.execSql fails (markSendingUpdate rows table)).2.ok = false := by
          cases hok' : (w.execSql fails (markSendingUpdate rows table)).2.ok with
          | true => cases hok hok'
          | false => rfl
        obtain ⟨hsame, hexp⟩ := h.expected c _ held row hc hheld hrow hid
        refine ⟨hsame, fun hu => hexp.1 ?_, fun hu => hexp.2 fun hn => hu ?_⟩
        · rcases hu with hu | ⟨hu, -⟩
          · exact List.mem_cons_of_mem _ hu
          · exact hu ▸ List.mem_cons_self
        · rcases List.mem_cons.1 hn with hn | hn
          · exact .inr ⟨hn, hfail⟩
          · exact .inl hn
    | settling rows updates table todo =>
      have hmem := List.mem_filter.1 hheld
      have hheld : held ∈ (⟨.sender route (.settling rows updates table todo), none⟩ : Call).held :=
        List.mem_filter.2 ⟨hmem.1, decide_eq_true
          (List.mem_cons_of_mem _ (of_decide_eq_true hmem.2))⟩
      have hexp := h.expected c _ held row hc hheld hrow hid
      exact hexp

theorem not_terminal (h : Custody options start w) (hlive : ∀ status ∈ start, status.isTerminal = false)
    {held row : JournalRow} (hheld : w.Held d held) (hrow : row ∈ w.conn.visible.journal)
    (hid : row.mutationId = held.mutationId) : row.status.isTerminal = false := by
  obtain ⟨call, hcall, hmem⟩ := hheld
  obtain ⟨-, hexp⟩ := h.expected d call held row hcall hmem hrow hid
  by_cases hu : call.Unmarked row.tableKey
  · exact hlive _ (hexp.1 hu)
  · rw [hexp.2 hu]
    rfl

theorem selects_of_statement {sql : Sql} {store : LocalStore}
    (hs : w.statementOf sql = some statement) : sql.selects store = [] := by
  cases sql with
  | readPending tables nowUs batchSize => cases hs
  | readUnit unitId => cases hs
  | _ => rfl

/-- A sender rolls nothing back. -/
theorem held_of_rollsBack {fails : Bool} {sql : Sql} {program : Program} (ha : program.Awaits sql)
    (hr : w.RollsBack fails sql) {reply : SqlReply} :
    (⟨program, some reply⟩ : Call).held = [] := by
  cases program with
  | script boot todo opened => rfl
  | bootReading => rfl
  | settle => rfl
  | sender route stage =>
    cases stage with
    | waiting => exact absurd ha (not_awaits_waiting _ _)
    | entering rows todo => exact absurd ha (not_awaits_entering _ _ _ _)
    | authorizing rows => exact absurd ha (not_awaits_authorizing _ _ _)
    | inFlight rows => exact absurd ha (not_awaits_inFlight _ _ _)
    | reading =>
      cases route with
      | batch tables =>
        obtain ⟨nowUs, batchSize, rfl⟩ := ha
        exact hr.elim
      | unit unitId =>
        obtain rfl : sql = .readUnit unitId := ha
        exact hr.elim
    | marking rows table todo marker =>
      cases marker with
      | true =>
        obtain rfl : sql = .statement (.writeRecoveryRequired true) := by cases route <;> exact ha
        exact hr.elim
      | false =>
        obtain rfl : sql = markSendingUpdate rows table := by cases route <;> exact ha
        exact hr.elim
    | settling rows updates table todo =>
      obtain rfl : sql = .statement (.statusUpdates table (settleUpdates updates rows table)) := by
        cases route <;> exact ha
      exact hr.elim

theorem executes (h : Custody options start w) (hpending : .pending ∈ start)
    (hlive : ∀ status ∈ start, status.isTerminal = false) {fails : Bool} {sql : Sql}
    (hser : Serialized start w fails sql) (he : Executes w fails c sql w') :
    Custody options start w' := by
  have hq : (c, sql) ∈ w.queue := he.queue ▸ List.mem_cons_self
  obtain ⟨program, hc, ha⟩ := h.coherent.awaited _ hq
  have hcalls : w'.calls = Function.update w.calls c (some ⟨program, some (w.execSql fails sql).2⟩) := by
    rw [he.calls, hc]
    rfl
  have hnext : w.nextMutationId ≤ w'.nextMutationId :=
    he.nextMutationId ▸ execSql_nextMutationId_le w fails sql
  have hread : ∀ row, row ∈ (w.execSql fails sql).2.rows →
      row ∈ w.conn.visible.journal ∧ ∀ d held, w.Held d held → held.mutationId ≠ row.mutationId :=
    fun row hrow => ⟨(eligible_of_selects (mem_selects hrow)).1, (hser.reads row (mem_selects hrow)).2⟩
  -- the other calls hold what they held
  have hother : ∀ d call, d ≠ c → w'.calls d = some call → w.calls d = some call := by
    intro d call hne hd
    rwa [hcalls, Function.update_of_ne hne] at hd
  have hrollback : ∀ d call held row, w.calls d = some call → held ∈ call.held →
      w.RollsBack fails sql → row ∈ w.conn.committed.journal → row.mutationId = held.mutationId →
      row.SameMutation held ∧ Expected start call row := by
    intro d call held row hd hmem hroll hrow hid
    by_cases hvis : ∃ row' ∈ w.conn.visible.journal, row'.mutationId = held.mutationId
    · obtain ⟨row', hrow', hid'⟩ := hvis
      obtain rfl := h.agrees (hser.rollbacks hroll) row hrow row' hrow' (hid'.trans hid.symm)
      exact h.expected d call held row' hd hmem hrow' hid'
    · push Not at hvis
      exact absurd hid (h.present d held ⟨call, hd, hmem⟩ hvis row hrow)
  -- a statement that has run: the rows of all calls, and what is gone
  have hstatement : ∀ statement store, w.statementOf sql = some statement →
      statement.exec w.conn.visible = some store → (w.execSql fails sql).2.ok = true →
      ∀ d call held row', w'.calls d = some call → held ∈ call.held → row' ∈ store.journal →
        row'.mutationId = held.mutationId → row'.SameMutation held ∧ Expected start call row' := by
    intro statement store hs hex hok d call held row' hd hmem hrow' hid
    by_cases hdc : d = c
    · subst hdc
      rw [hcalls, Function.update_self] at hd
      obtain rfl := Option.some.inj hd
      exact h.expected_own hc ha hs hex hok hmem hrow' hid
    · have hd := hother d call hdc hd
      rcases h.statement_moves hpending hser hq hs hex hrow' with ⟨rows, rfl, hnew⟩ | ⟨row, hrow, hmoved⟩
      · have hle := (h.coherent.inserted fails hq hs hnew).2.2.1
        exact absurd (hid ▸ h.heldFresh d held ⟨call, hd, hmem⟩) (Nat.not_lt.2 hle)
      · have hid : row.mutationId = held.mutationId := hmoved.same.1.symm.trans hid
        obtain ⟨hsame, -⟩ := h.expected d call held row hd hmem hrow hid
        exact ⟨⟨hmoved.same.1.trans hsame.1, hmoved.same.2.1.trans hsame.2.1,
          hmoved.same.2.2.1.trans hsame.2.2.1, hmoved.same.2.2.2.trans hsame.2.2.2⟩,
          hmoved.others d call held hd hmem hid.symm hdc⟩
  refine ⟨h.coherent.executes he, ?_, ?_, ?_, ?_, ?_, ?_⟩
  · refine he.effect.keeps (P := fun store => ∀ row ∈ store.journal, row.mutationId < w'.nextMutationId)
      (fun row hrow => (h.fresh.1 row hrow).trans_le hnext)
      (fun row hrow => (h.fresh.2 row hrow).trans_le hnext) fun statement store hs hex row' hrow' => ?_
    rcases JournalStatement.mem_exec hex hrow' with ⟨row, hrow, hsame⟩ | ⟨rows, rfl, hrow⟩
    · rw [hsame.1]
      exact (h.fresh.2 row hrow).trans_le hnext
    · exact he.nextMutationId ▸ (h.coherent.inserted fails hq hs hrow).2.2.2.1
  · intro d held hheld
    rcases he.held_of hheld with hheld | ⟨-, hrow⟩
    · exact (h.heldFresh d held hheld).trans_le hnext
    · exact (h.fresh.2 held (hread held hrow).1).trans_le hnext
  · intro d e held held' hd he' hid
    rcases he.held_of hd with hd | ⟨rfl, hrow⟩ <;> rcases he.held_of he' with he' | ⟨rfl, hrow'⟩
    · exact h.exclusive d e held held' hd he' hid
    · exact absurd hid ((hread held' hrow').2 d held hd)
    · exact absurd hid.symm ((hread held hrow).2 e held' he')
    · rfl
  · intro d call held row hd hmem hrow hid
    cases he.effect with
    | nothing hv _ _ _ hok =>
      rw [hv] at hrow
      by_cases hdc : d = c
      · subst hdc
        rw [hcalls, Function.update_self] at hd
        obtain rfl := Option.some.inj hd
        exact h.expected_kept hser hc ha hok hmem hrow hid
      · exact h.expected d call held row (hother d call hdc hd) hmem hrow hid
    | commit hsql hconn =>
      rw [hconn] at hrow
      by_cases hdc : d = c
      · subst hdc
        rw [hcalls, Function.update_self] at hd
        obtain rfl := Option.some.inj hd
        exact h.expected_kept hser hc ha (by simp [hsql, statementOf]) hmem hrow hid
      · exact h.expected d call held row (hother d call hdc hd) hmem hrow hid
    | rollback hroll hconn =>
      rw [hconn] at hrow
      by_cases hdc : d = c
      · subst hdc
        rw [hcalls, Function.update_self] at hd
        obtain rfl := Option.some.inj hd
        rw [held_of_rollsBack ha hroll] at hmem
        exact absurd hmem List.not_mem_nil
      · exact hrollback d call held row (hother d call hdc hd) hmem hroll hrow hid
    | alone hs hex _ hconn _ hok =>
      rw [hconn] at hrow
      exact hstatement _ _ hs hex hok d call held row hd hmem hrow hid
    | inBlock hs hex _ hconn _ hok =>
      rw [hconn] at hrow
      exact hstatement _ _ hs hex hok d call held row hd hmem hrow hid
  · intro d held hheld hgone row hrow
    cases he.effect with
    | nothing hv hcom =>
      rw [hv] at hgone
      rw [hcom] at hrow
      rcases he.held_of hheld with hheld | ⟨-, hread'⟩
      · exact h.present d held hheld hgone row hrow
      · exact absurd rfl (hgone held (hread held hread').1)
    | commit _ hconn =>
      rw [hconn] at hgone hrow
      exact hgone row hrow
    | rollback _ hconn =>
      rw [hconn] at hgone hrow
      exact hgone row hrow
    | alone _ _ _ hconn =>
      rw [hconn] at hgone hrow
      exact hgone row hrow
    | inBlock hs hex _ hconn =>
      rw [hconn] at hgone hrow
      rcases he.held_of hheld with hheld | ⟨-, hread'⟩
      · refine h.present d held hheld (fun row' hrow' hid => ?_) row hrow
        rcases JournalStatement.exec_keeps hex hrow' with ⟨row'', hmem, hid''⟩ | ⟨table, ids, rfl⟩
        · exact hgone row'' hmem (hid''.trans hid)
        · have hterm := h.not_terminal hlive hheld hrow' hid
          cases h.coherent.issued hq hs with
          | script _ ha =>
            rw [ha.2] at hterm
            cases hterm
      · refine absurd (mem_selects hread') ?_
        rw [selects_of_statement hs]
        exact List.not_mem_nil
  · intro hblock row hrow row' hrow' hid
    cases he.effect with
    | nothing hv hcom _ hb =>
      rw [hv] at hrow'
      rw [hcom] at hrow
      rcases hb with hb | ⟨htx, -⟩
      · exact h.agrees (hb ▸ hblock) row hrow row' hrow' hid
      · rw [visible_idle htx] at hrow'
        exact eq_of_mutationId hrow hrow' hid
    | commit _ hconn =>
      rw [hconn] at hrow hrow'
      exact eq_of_mutationId hrow hrow' hid
    | rollback _ hconn =>
      rw [hconn] at hrow hrow'
      exact eq_of_mutationId hrow hrow' hid
    | alone _ _ _ hconn =>
      rw [hconn] at hrow hrow'
      exact eq_of_mutationId hrow hrow' hid
    | inBlock hs hex _ hconn hb =>
      rw [hconn] at hrow hrow'
      rw [hb] at hblock
      have hblock := List.forall_mem_append.1 hblock
      rcases h.statement_moves hpending hser hq hs hex hrow' with ⟨rows, rfl, hnew⟩ | ⟨old, hold, hmoved⟩
      · have hle := (h.coherent.inserted fails hq hs hnew).2.2.1
        exact absurd (hid ▸ h.fresh.1 row hrow) (Nat.not_lt.2 hle)
      · obtain rfl := hmoved.quiet (hblock.2 _ (List.mem_singleton_self _))
        exact h.agrees hblock.1 row hrow row' hold hid

/-! ### Crashes, boots and runs -/

/-- Without calls nothing is held. -/
theorem of_committed {v : Runtime} (h : Custody options start w) (hcoh : Coherent options v)
    (hc : v.conn = w.conn.rollback) (hn : v.nextMutationId = w.nextMutationId)
    (hheld : ∀ d held, ¬ v.Held d held) : Custody options start v := by
  have hcom : v.conn.committed = w.conn.committed := by rw [hc, rollback_committed]
  have hvis : v.conn.visible = w.conn.committed := by rw [hc, rollback_visible]
  refine ⟨hcoh, ?_, ?_, ?_, ?_, ?_, ?_⟩
  · rw [hcom, hvis, hn]
    exact ⟨h.fresh.1, h.fresh.1⟩
  · exact fun d held hd => absurd hd (hheld d held)
  · exact fun d e held held' hd => absurd hd (hheld d held)
  · exact fun d call held row hd hmem => absurd ⟨call, hd, hmem⟩ (hheld d held)
  · exact fun d held hd => absurd hd (hheld d held)
  · rw [hcom, hvis]
    exact fun _ row hrow row' hrow' hid => eq_of_mutationId hrow hrow' hid

theorem crashed (h : Custody options start w) : Custody options start w.crashed :=
  h.of_committed (Coherent.crashed w) rfl rfl fun _ _ ⟨_, hc, _⟩ => nomatch hc

theorem boots (h : Custody options start w) {nowUs : ℕ} {restore : Bool} :
    Custody options start (w.crashed.bootCall options c nowUs restore) := by
  have hissue : ∀ sql program, (⟨program, none⟩ : Call).held = [] →
      ∀ d held, ¬ (w.crashed.issue c sql program).Held d held := by
    rintro sql program hheld d held ⟨call, hcall, hrow⟩
    obtain ⟨rfl, rfl⟩ | ⟨-, hd⟩ := update_eq_some.1 hcall
    · rw [hheld] at hrow
      exact absurd hrow List.not_mem_nil
    · cases hd
  have hcoh : Coherent options (w.crashed.bootCall options c nowUs restore) := Coherent.boot w
  unfold bootCall at hcoh ⊢
  split at hcoh <;> rename_i hrestore
  · rw [if_pos hrestore]
    cases hs : recoverSending options nowUs ++ quarantineRecovered options ++
      [.statement .clearRecoveryMarkerIfSettled] with
    | nil => simp at hs
    | cons sql todo =>
      rw [hs] at hcoh
      exact h.of_committed hcoh rfl rfl (hissue _ _ rfl)
  · rw [if_neg hrestore]
    exact h.of_committed hcoh rfl rfl (hissue _ _ rfl)

end Custody

/-- A statement that runs is serialized. -/
def SerializedEvent (start : List MutationStatus) (w : Runtime) (event : RuntimeEvent) : Prop :=
  ∀ fails c sql queue, event = .execute fails → w.queue = (c, sql) :: queue →
    Serialized start w fails sql

theorem Custody.step (h : Custody options start w) (hpending : .pending ∈ start)
    (hlive : ∀ status ∈ start, status.isTerminal = false) {event : RuntimeEvent}
    (hser : SerializedEvent start w event) (hs : runtimeStep options w event = some w') :
    Custody options start w' := by
  rcases step_cases hs with ⟨c, hs⟩ | ⟨fails, c, sql, rfl, he⟩ | ⟨-, rfl⟩ |
    ⟨c, nowUs, restore, -, -, rfl⟩
  · exact h.callStep hs
  · exact h.executes hpending hlive (hser fails c sql w'.queue rfl he.queue) he
  · exact h.crashed
  · exact h.boots

end Runtime

theorem lt_above (number : JournalRow → ℕ) {rows : List JournalRow} {row : JournalRow}
    (h : row ∈ rows) : number row < above number rows := by
  unfold above
  induction rows with
  | nil => cases h
  | cons head rows ih =>
    rw [List.map_cons, List.foldr_cons, Nat.lt_succ_iff]
    rcases List.mem_cons.1 h with rfl | h
    · exact le_max_left ..
    · exact (Nat.lt_succ_iff.1 (ih h)).trans (le_max_right ..)

namespace Runtime

theorem Custody.initial {options : RuntimeOptions} {start : List MutationStatus}
    (store : LocalStore) : Custody options start (Runtime.initial store) := by
  refine ⟨Coherent.initial store, ⟨fun row hrow => lt_above _ hrow, fun row hrow => lt_above _ hrow⟩,
    ?_, ?_, ?_, ?_, fun _ row hrow row' hrow' hid => eq_of_mutationId hrow hrow' hid⟩
  · exact fun _ _ ⟨_, hc, _⟩ => nomatch hc
  · exact fun _ _ _ _ ⟨_, hc, _⟩ => nomatch hc
  · exact fun _ _ _ _ hc => nomatch hc
  · exact fun _ _ ⟨_, hc, _⟩ => nomatch hc

end Runtime

end Mutation
