/-
The rows that a sender holds, and the statements that write the journals.

A sender holds the rows it has read until it has settled them.  No step adds to them but a
read, and the UPDATEs of a sender name rows that it holds.
-/
import Pgxsinkit.Mutation.Coherent

namespace Mutation

open Connection

/-- The rows that a call has read and may still write or send. -/
def Call.held : Call → List JournalRow
  | ⟨.sender _ .reading, some reply⟩ => reply.rows
  | ⟨.sender _ (.entering rows _), _⟩ => rows
  | ⟨.sender _ (.marking rows _ _ _), _⟩ => rows
  | ⟨.sender _ (.authorizing rows), _⟩ => rows
  | ⟨.sender _ (.inFlight rows), _⟩ => rows
  | ⟨.sender _ (.settling rows _ table todo), none⟩ =>
    rows.filter fun row => row.tableKey ∈ table :: todo
  | ⟨.sender _ (.settling rows _ _ todo), some _⟩ => rows.filter fun row => row.tableKey ∈ todo
  | _ => []

/-- The tables whose rows the call has not marked yet, among those it holds. -/
def Call.Unmarked : Call → ℕ → Prop
  | ⟨.sender _ .reading, _⟩, _ => True
  | ⟨.sender _ (.entering _ todo), _⟩, table => table ∈ todo
  | ⟨.sender _ (.marking _ head todo false), some reply⟩, table =>
    table ∈ todo ∨ table = head ∧ reply.ok = false
  | ⟨.sender _ (.marking _ head todo _), _⟩, table => table ∈ head :: todo
  | _, _ => False

namespace Runtime

variable {options : RuntimeOptions} {w w' : Runtime} {c d : ℕ} {row : JournalRow}

/-- The call holds the row. -/
def Held (w : Runtime) (c : ℕ) (row : JournalRow) : Prop :=
  ∃ call, w.calls c = some call ∧ row ∈ call.held

/-! ### What a call that begins or continues leaves alone -/

/-- What the database keeps, and the open block. -/
structure SameDatabase (w w' : Runtime) : Prop where
  conn : w'.conn = w.conn
  block : w'.block = w.block
  sequences : w'.sequences = w.sequences
  nextMutationId : w'.nextMutationId = w.nextMutationId

theorem CallStep.database (h : CallStep options w c w') : SameDatabase w w' := by
  cases h with
  | @scriptDone boot todo opened reply hc hok ht hr =>
    unfold finishScript
    cases boot with
    | none => exact ⟨rfl, rfl, rfl, rfl⟩
    | some restore => cases restore <;> exact ⟨rfl, rfl, rfl, rfl⟩
  | _ => exact ⟨rfl, rfl, rfl, rfl⟩

theorem boot_database (options : RuntimeOptions) (c : ℕ) (w : Runtime) (nowUs : ℕ)
    (restore : Bool) :
    SameDatabase w.crashed (w.crashed.bootCall options c nowUs restore) := by
  unfold bootCall
  split
  · cases hs : recoverSending options nowUs ++ quarantineRecovered options ++
      [.statement .clearRecoveryMarkerIfSettled] with
    | nil => simp at hs
    | cons sql todo => exact ⟨rfl, rfl, rfl, rfl⟩
  · exact ⟨rfl, rfl, rfl, rfl⟩

theorem CallStep.calls_of_ne (h : CallStep options w c w') (hd : d ≠ c) :
    w'.calls d = w.calls d := by
  cases h with
  | skipSettle => rfl
  | resends hc => rfl
  | @scriptDone boot todo opened reply hc hok ht hr =>
    unfold finishScript
    cases boot with
    | none => exact Function.update_of_ne hd _ _
    | some restore => cases restore <;> exact Function.update_of_ne hd _ _
  | _ => exact Function.update_of_ne hd _ _

theorem held_responded {route : Route} {rows : List JournalRow}
    {updates : List MutationStatusUpdate} {table : ℕ} {todo : List ℕ}
    (ht : tablesOf rows = table :: todo) :
    (⟨.sender route (.settling rows updates table todo), none⟩ : Call).held = rows := by
  refine List.filter_eq_self.2 fun row hrow => decide_eq_true ?_
  rw [← ht]
  exact List.mem_eraseDups.2 (List.mem_map.2 ⟨row, hrow, rfl⟩)

/-- A call that begins or continues reads no new rows, and marks none. -/
theorem CallStep.held_cases (h : CallStep options w c w') {call' : Call}
    (hcall' : w'.calls d = some call') (hrow : row ∈ call'.held) :
    ∃ call, w.calls d = some call ∧ call'.held = call.held ∧
      (call'.Unmarked row.tableKey ↔ call.Unmarked row.tableKey) := by
  by_cases hd : d = c
  case neg => exact ⟨call', h.calls_of_ne hd ▸ hcall', rfl, Iff.rfl⟩
  subst hd
  -- the call has the program it continues with, or has ended
  have hput : ∀ {v : Runtime} {program : Program},
      v.calls = Function.update w.calls d (some ⟨program, none⟩) → v.calls d = some call' →
        call' = ⟨program, none⟩ := by
    intro v program hv hc
    rw [hv, Function.update_self] at hc
    exact (Option.some.inj hc).symm
  have hend : ∀ {v : Runtime}, v.calls = Function.update w.calls d none → v.calls d ≠ some call' := by
    intro v hv hc
    rw [hv, Function.update_self] at hc
    cases hc
  cases h with
  | beginFlush hb hc =>
    obtain rfl := hput rfl hcall'
    exact absurd hrow List.not_mem_nil
  | beginUnit hb hc =>
    obtain rfl := hput rfl hcall'
    exact absurd hrow List.not_mem_nil
  | beginScript hb hc hs =>
    obtain rfl := hput rfl hcall'
    exact absurd hrow List.not_mem_nil
  | beginEmpty hb hc => exact absurd hcall' (hend rfl)
  | beginSettle hb hc hs =>
    obtain rfl := hput rfl hcall'
    exact absurd hrow List.not_mem_nil
  | skipSettle => exact ⟨call', hcall', rfl, Iff.rfl⟩
  | startFlush hc hq =>
    obtain rfl := hput rfl hcall'
    exact absurd hrow List.not_mem_nil
  | rowsRead hc hok =>
    obtain rfl := hput rfl hcall'
    refine ⟨_, hc, rfl, iff_of_true ?_ trivial⟩
    exact List.mem_eraseDups.2 (List.mem_map.2 ⟨row, hrow, rfl⟩)
  | markDirty hc hd =>
    obtain rfl := hput rfl hcall'
    exact ⟨_, hc, rfl, Iff.rfl⟩
  | markClean hc hd =>
    obtain rfl := hput rfl hcall'
    exact ⟨_, hc, rfl, Iff.rfl⟩
  | markerWritten hc hok =>
    obtain rfl := hput rfl hcall'
    exact ⟨_, hc, rfl, Iff.rfl⟩
  | marked hc hok =>
    obtain rfl := hput rfl hcall'
    exact ⟨_, hc, rfl, by simp [Call.Unmarked, hok]⟩
  | markFails hc hok => exact absurd hcall' (hend rfl)
  | allMarked hc =>
    obtain rfl := hput rfl hcall'
    exact ⟨_, hc, rfl, iff_of_false id List.not_mem_nil⟩
  | sends hc =>
    obtain rfl := hput rfl hcall'
    exact ⟨_, hc, rfl, Iff.rfl⟩
  | resends hc => exact ⟨call', hcall', rfl, Iff.rfl⟩
  | responded hc hs ht =>
    obtain rfl := hput rfl hcall'
    refine ⟨_, hc, ?_, ?_⟩
    · rcases hs with rfl | rfl <;> exact held_responded ht
    · rcases hs with rfl | rfl <;> exact Iff.rfl
  | settleNext hc hok =>
    obtain rfl := hput rfl hcall'
    exact ⟨_, hc, rfl, Iff.rfl⟩
  | nextPass hc hf hm hw =>
    obtain rfl := hput rfl hcall'
    exact absurd hrow List.not_mem_nil
  | senderEnds hc hf hm => exact absurd hcall' (hend rfl)
  | scriptNext hc hok =>
    obtain rfl := hput rfl hcall'
    exact absurd hrow List.not_mem_nil
  | @scriptDone boot todo opened reply hc hok ht hr =>
    unfold finishScript at hcall'
    cases boot with
    | none => exact absurd hcall' (hend rfl)
    | some restore => cases restore <;> exact absurd hcall' (hend rfl)
  | scriptRollsBack hc hok =>
    obtain rfl := hput rfl hcall'
    exact absurd hrow List.not_mem_nil
  | scriptEnds hc => exact absurd hcall' (hend rfl)
  | bootSkips hc hok hm => exact absurd hcall' (hend rfl)
  | bootInitializes hc hs =>
    obtain rfl := hput rfl hcall'
    exact absurd hrow List.not_mem_nil
  | bootRecovers hc =>
    obtain rfl := hput rfl hcall'
    exact absurd hrow List.not_mem_nil
  | bootFails hc => exact absurd hcall' (hend rfl)
  | settleEnds hc => exact absurd hcall' (hend rfl)

theorem CallStep.held_of (h : CallStep options w c w') (hw : w'.Held d row) : w.Held d row := by
  obtain ⟨call', hcall', hrow⟩ := hw
  obtain ⟨call, hcall, hheld, -⟩ := h.held_cases hcall' hrow
  exact ⟨call, hcall, hheld ▸ hrow⟩

/-- A request carries rows that its call holds. -/
theorem CallStep.mem_requests (h : CallStep options w c w') {rows : List JournalRow}
    (hr : rows ∈ w'.requests) : rows ∈ w.requests ∨ ∀ row ∈ rows, w.Held c row := by
  cases h with
  | @sends route rows' reply hc =>
    rcases List.mem_append.1 hr with hr | hr
    · exact .inl hr
    · obtain rfl := List.mem_singleton.1 hr
      exact .inr fun row hrow => ⟨_, hc, hrow⟩
  | @resends route rows' reply hc =>
    rcases List.mem_append.1 hr with hr | hr
    · exact .inl hr
    · obtain rfl := List.mem_singleton.1 hr
      exact .inr fun row hrow => ⟨_, hc, hrow⟩
  | @scriptDone boot todo opened reply hc hok ht hb =>
    unfold finishScript at hr
    cases boot with
    | none => exact .inl hr
    | some restore =>
      cases restore with
      | false => exact .inl hr
      | true => exact absurd hr List.not_mem_nil
  | _ => exact .inl hr

/-- A statement that runs gives its own call the rows it read, and takes none from another. -/
theorem Executes.held_of {fails : Bool} {sql : Sql} (he : Executes w fails c sql w')
    (hw : w'.Held d row) :
    w.Held d row ∨ d = c ∧ row ∈ (w.execSql fails sql).2.rows := by
  obtain ⟨call', hcall', hrow⟩ := hw
  rw [he.calls] at hcall'
  by_cases hd : d = c
  · subst hd
    rw [Function.update_self] at hcall'
    obtain ⟨⟨program, reply⟩, hcall, rfl⟩ := Option.map_eq_some_iff.1 hcall'
    cases program with
    | sender route stage =>
      cases stage with
      | reading => exact .inr ⟨rfl, hrow⟩
      | settling rows updates table todo =>
        refine .inl ⟨_, hcall, ?_⟩
        have hrow : row ∈ rows.filter fun row => row.tableKey ∈ todo := hrow
        cases reply with
        | none =>
          have hrow := List.mem_filter.1 hrow
          exact List.mem_filter.2 ⟨hrow.1, decide_eq_true
            (List.mem_cons_of_mem _ (of_decide_eq_true hrow.2))⟩
        | some reply => exact hrow
      | waiting => exact absurd hrow List.not_mem_nil
      | entering rows todo => exact .inl ⟨_, hcall, hrow⟩
      | marking rows table todo marker => exact .inl ⟨_, hcall, hrow⟩
      | authorizing rows => exact .inl ⟨_, hcall, hrow⟩
      | inFlight rows => exact .inl ⟨_, hcall, hrow⟩
    | script boot todo opened => exact absurd hrow List.not_mem_nil
    | bootReading => exact absurd hrow List.not_mem_nil
    | settle => exact absurd hrow List.not_mem_nil
  · rw [Function.update_of_ne hd] at hcall'
    exact .inl ⟨call', hcall', hrow⟩

/-! ### The statements that write -/

/-- The statement on the journals that a call has issued, by what issues it. -/
inductive Issued (options : RuntimeOptions) (w : Runtime) (c : ℕ) : JournalStatement → Prop
  | marker {route : Route} {rows : List JournalRow} {table : ℕ} {todo : List ℕ}
      (hc : w.calls c = some ⟨.sender route (.marking rows table todo true), none⟩) :
      Issued options w c (.writeRecoveryRequired true)
  | mark {route : Route} {rows : List JournalRow} {table : ℕ} {todo : List ℕ}
      (hc : w.calls c = some ⟨.sender route (.marking rows table todo false), none⟩) :
      Issued options w c (.statusUpdates table (markSendingUpdates rows table))
  | settle {route : Route} {rows : List JournalRow} {updates : List MutationStatusUpdate}
      {table : ℕ} {todo : List ℕ}
      (hc : w.calls c = some ⟨.sender route (.settling rows updates table todo), none⟩) :
      Issued options w c (.statusUpdates table (settleUpdates updates rows table))
  | insert {todo : List Sql} {opened : Bool} {table : ℕ} {rows : List JournalRow}
      (hc : w.calls c = some ⟨.script none todo opened, none⟩) (ht : table ∈ options.tables) :
      Issued options w c (.insert (numbered w.nextMutationId (w.sequences table) table rows))
  | script {boot : Option Bool} {todo : List Sql} {opened : Bool} {statement : JournalStatement}
      (hc : w.calls c = some ⟨.script boot (.statement statement :: todo) opened, none⟩)
      (ha : (Sql.statement statement).Allowed options boot) : Issued options w c statement
  | clear (hc : w.calls c = some ⟨.settle, none⟩) :
      Issued options w c .clearRecoveryMarkerIfSettled

theorem Coherent.issued (h : Coherent options w) {sql : Sql} {statement : JournalStatement}
    (hq : (c, sql) ∈ w.queue) (hs : w.statementOf sql = some statement) :
    Issued options w c statement := by
  obtain ⟨program, hc, ha⟩ := h.awaited _ hq
  cases program with
  | sender route stage =>
    cases stage with
    | reading =>
      cases route with
      | batch tables =>
        obtain ⟨nowUs, batchSize, rfl⟩ := ha
        cases hs
      | unit unitId =>
        obtain rfl : sql = .readUnit unitId := ha
        cases hs
    | marking rows table todo marker =>
      cases marker with
      | true =>
        obtain rfl : sql = .statement (.writeRecoveryRequired true) := by cases route <;> exact ha
        cases hs
        exact .marker hc
      | false =>
        obtain rfl : sql = markSendingUpdate rows table := by cases route <;> exact ha
        cases hs
        exact .mark hc
    | settling rows updates table todo =>
      obtain rfl : sql = .statement (.statusUpdates table (settleUpdates updates rows table)) := by
        cases route <;> exact ha
      cases hs
      exact .settle hc
    | waiting => exact absurd ha (not_awaits_waiting _ _)
    | entering rows todo => exact absurd ha (not_awaits_entering _ _ _ _)
    | authorizing rows => exact absurd ha (not_awaits_authorizing _ _ _)
    | inFlight rows => exact absurd ha (not_awaits_inFlight _ _ _)
  | script boot todo opened =>
    cases todo with
    | nil => cases ha
    | cons head todo =>
      obtain rfl : head = sql := Option.some.inj ha
      have ha : head.Allowed options boot := h.fits c _ hc head List.mem_cons_self
      cases head with
      | statement statement =>
        cases hs
        exact .script hc ha
      | insertMutations table rows =>
        cases hs
        obtain rfl : boot = none := ha.1
        exact .insert hc ha.2
      | _ => cases hs
  | bootReading =>
    obtain rfl : sql = .readMarker := ha
    cases hs
  | settle =>
    obtain rfl : sql = .statement .clearRecoveryMarkerIfSettled := ha
    cases hs
    exact .clear hc

/-- What the UPDATEs of a sender name are rows that it holds, of the table they are about. -/
theorem Issued.held {table : ℕ} {updates : List MutationStatusUpdate}
    (h : Issued options w c (.statusUpdates table updates)) {update : MutationStatusUpdate}
    (hu : update ∈ updates) :
    ∃ row, w.Held c row ∧ row.tableKey = table ∧ row.mutationId = update.mutationId := by
  cases h with
  | mark hc =>
    obtain ⟨row, hrow, rfl⟩ := List.mem_map.1 hu
    have hrow := List.mem_filter.1 hrow
    exact ⟨row, ⟨_, hc, hrow.1⟩, of_decide_eq_true hrow.2, rfl⟩
  | settle hc =>
    have hu := List.any_eq_true.1 (List.mem_filter.1 hu).2
    obtain ⟨row, hrow, hid⟩ := hu
    have hrow := List.mem_filter.1 hrow
    have ht := of_decide_eq_true hrow.2
    exact ⟨row, ⟨_, hc, List.mem_filter.2 ⟨hrow.1, decide_eq_true (ht ▸ List.mem_cons_self)⟩⟩, ht,
      of_decide_eq_true hid⟩
  | script hc ha => exact ha.elim

/-! ### The ids of new rows -/

theorem execSql_nextMutationId_le (w : Runtime) (fails : Bool) (sql : Sql) :
    w.nextMutationId ≤ (w.execSql fails sql).1.nextMutationId := by
  cases sql with
  | begin => cases fails <;> exact le_rfl
  | commit => cases fails <;> exact le_rfl
  | rollback => cases fails <;> exact le_rfl
  | insertMutations table rows => exact Nat.le_add_right ..
  | _ => exact le_rfl

/-- Only a script inserts. -/
theorem Coherent.insert_allowed (h : Coherent options w) {sql : Sql} (hq : (c, sql) ∈ w.queue)
    {rows : List JournalRow} (hs : w.statementOf sql = some (.insert rows)) :
    ∃ boot, sql.Allowed options boot := by
  obtain ⟨program, hc, ha⟩ := h.awaited _ hq
  cases program with
  | script boot todo opened =>
    have hmem : sql ∈ todo := List.mem_of_head? ha
    exact ⟨boot, h.fits c _ hc sql hmem⟩
  | sender route stage =>
    cases stage with
    | reading =>
      cases route with
      | batch tables =>
        obtain ⟨nowUs, batchSize, rfl⟩ := ha
        cases hs
      | unit unitId =>
        obtain rfl : sql = .readUnit unitId := ha
        cases hs
    | marking rows' table todo marker =>
      cases marker with
      | true =>
        obtain rfl : sql = .statement (.writeRecoveryRequired true) := by cases route <;> exact ha
        cases hs
      | false =>
        obtain rfl : sql = markSendingUpdate rows' table := by cases route <;> exact ha
        cases hs
    | settling rows' updates table todo =>
      obtain rfl : sql = .statement (.statusUpdates table (settleUpdates updates rows' table)) := by
        cases route <;> exact ha
      cases hs
    | waiting => exact absurd ha (not_awaits_waiting _ _)
    | entering rows' todo => exact absurd ha (not_awaits_entering _ _ _ _)
    | authorizing rows' => exact absurd ha (not_awaits_authorizing _ _ _)
    | inFlight rows' => exact absurd ha (not_awaits_inFlight _ _ _)
  | bootReading =>
    obtain rfl : sql = .readMarker := ha
    cases hs
  | settle =>
    obtain rfl : sql = .statement .clearRecoveryMarkerIfSettled := ha
    cases hs

/-- The rows of an INSERT are pending, of a table of the registry, and their ids are new. -/
theorem Coherent.inserted (h : Coherent options w) (fails : Bool) {sql : Sql}
    {rows : List JournalRow} (hq : (c, sql) ∈ w.queue)
    (hs : w.statementOf sql = some (.insert rows)) (hrow : row ∈ rows) :
    row.status = .pending ∧ row.tableKey ∈ options.tables ∧ w.nextMutationId ≤ row.mutationId ∧
      row.mutationId < (w.execSql fails sql).1.nextMutationId ∧
      w.sequences row.tableKey ≤ row.mutationSeq := by
  obtain ⟨boot, ha⟩ := h.insert_allowed hq hs
  cases sql with
  | insertMutations table rows' =>
    cases hs
    obtain ⟨i, hlt, rfl⟩ := List.mem_mapIdx.1 hrow
    exact ⟨rfl, ha.2, Nat.le_add_right .., Nat.add_lt_add_left hlt _, Nat.le_add_right ..⟩
  | statement statement =>
    cases hs
    exact ha.elim
  | _ => cases hs

end Runtime

end Mutation
