/-
The durable recovery marker and the rows that are being sent.

A sender writes the marker before it marks its rows, and a settle clears it when no row is
`sending` and no sender is between the two.  The memory of the runtime (the dirty flag, the
open spans) is right about the marker as long as nothing takes a written marker back.
-/
import Pgxsinkit.Mutation.Held

namespace Mutation

open Connection Runs

/-! ### What the marker promises -/

namespace LocalStore

/-- A boot would run the recovery: the marker reads true or is absent. -/
def RecoveryRequired (store : LocalStore) : Prop := store.recoveryRequired ≠ some false

/-- The marker covers the rows that are `sending`. -/
def Covered (store : LocalStore) : Prop :=
  ∀ row ∈ store.journal, row.status = .sending → store.RecoveryRequired

theorem Covered.exec {store store' : LocalStore} {statement : JournalStatement}
    (h : store.Covered) (he : statement.exec store = some store')
    (hmark : ∀ table updates, statement = .statusUpdates table updates →
      (∀ update ∈ updates, update.status ≠ .sending) ∨ store.RecoveryRequired)
    (hinsert : ∀ rows, statement = .insert rows → ∀ row ∈ rows, row.status ≠ .sending)
    (hwrite : statement = .writeRecoveryRequired false →
      ∀ row ∈ store.journal, row.status ≠ .sending) : store'.Covered := by
  -- a row that an UPDATE to another status leaves `sending` was not touched
  have hmove : ∀ table sources target nextRetryAtUs, target ≠ .sending →
      (store.moveStatus table sources target nextRetryAtUs).Covered := by
    intro table sources target nextRetryAtUs ht row' hrow' hs
    obtain ⟨row, hrow, rfl⟩ := List.mem_map.1 hrow'
    unfold JournalRow.moveStatus at hs
    split at hs
    · exact absurd hs ht
    · exact h row hrow hs
  cases statement with
  | insert rows =>
    obtain ⟨hj, hm⟩ := JournalStatement.exec_insert he
    intro row hrow hs
    rw [RecoveryRequired, hm]
    rcases List.mem_append.1 (hj ▸ hrow) with hrow | hrow
    · exact h row hrow hs
    · exact absurd hs (hinsert rows rfl row hrow)
  | statusUpdates table updates =>
    cases he
    intro row' hrow' hs
    obtain ⟨row, hrow, rfl⟩ := List.mem_map.1 hrow'
    rcases hmark table updates rfl with hu | hm
    · unfold JournalStatement.applyUpdatesIn JournalRow.applyUpdates at hs
      split at hs
      · split at hs
        · exact h row hrow hs
        · next update hf => exact absurd hs (hu update (List.mem_of_find?_eq_some hf))
      · exact h row hrow hs
    · exact hm
  | retryFailed table nowUs => exact Option.some.inj he ▸ hmove _ _ _ _ (by decide)
  | recoverSending table nowUs => exact Option.some.inj he ▸ hmove _ _ _ _ (by decide)
  | quarantineRecovered table => exact Option.some.inj he ▸ hmove _ _ _ _ (by decide)
  | delete table status mutationIds =>
    cases he
    exact fun row hrow hs => h row (List.mem_of_mem_filter hrow) hs
  | writeRecoveryRequired required =>
    cases he
    intro row hrow hs
    cases required with
    | true => exact fun hm => nomatch hm
    | false => exact absurd hs (hwrite rfl row hrow)
  | clearRecoveryMarkerIfSettled =>
    cases he
    intro row hrow hs
    have hsending : store.hasSending = true :=
      List.any_eq_true.2 ⟨row, hrow, decide_eq_true hs⟩
    have hm := h row hrow hs
    simpa [RecoveryRequired, hsending] using hm

end LocalStore

/-- The statement may make the marker read false. -/
def Sql.ClearsMarker : Sql → Prop
  | .statement (.writeRecoveryRequired required) => required = false
  | .statement .clearRecoveryMarkerIfSettled => True
  | _ => False

/-- A program of a boot. -/
def Program.IsBoot : Program → Prop
  | .script boot _ _ => boot ≠ none
  | .bootReading => True
  | _ => False

/-- What is left of a script once its reply is there. -/
def remaining (todo : List Sql) : Option SqlReply → List Sql
  | none => todo
  | some _ => todo.tail

namespace Runtime

variable {options : RuntimeOptions} {w w' : Runtime} {c d : ℕ}

/-- The marker that the connection sees requires the recovery, and nothing that is issued
changes that. -/
structure Calm (w : Runtime) : Prop where
  required : w.conn.visible.RecoveryRequired
  queue : ∀ entry ∈ w.queue, ¬ entry.2.ClearsMarker

/-- What a call relies on.  A sender between its marker decision and its UPDATE relies on the
marker; a boot relies on what its script has still to do for the rows. -/
def Relies (w : Runtime) (c : ℕ) : Call → Prop
  | ⟨.sender _ (.marking _ _ _ false), _⟩ => c ∈ w.markSendingSpans ∧ w.Calm
  | ⟨.sender _ (.marking _ _ _ true), none⟩ =>
    c ∈ w.markSendingSpans ∧ ∃ before after,
      w.queue = before ++ (c, .statement (.writeRecoveryRequired true)) :: after ∧
        ∀ entry ∈ after, ¬ entry.2.ClearsMarker
  | ⟨.sender _ (.marking _ _ _ true), some reply⟩ =>
    c ∈ w.markSendingSpans ∧ (reply.ok = true → w.Calm)
  | ⟨.script (some true) todo opened, reply⟩ =>
    (opened = false ∧ .begin ∉ todo ∧ w.conn.tx = none) ∧ ((∀ answer, reply = some answer → answer.ok = true) →
      ∀ row ∈ w.conn.visible.journal, row.status.isTerminal = true ∨
        .statement (.quarantineRecovered row.tableKey) ∈ remaining todo reply)
  | ⟨.script (some false) todo _, reply⟩ =>
    .statement (.writeRecoveryRequired false) ∈ todo →
      (.commit ∉ todo ∧ .rollback ∉ todo) ∧
      ((∀ answer, reply = some answer → answer.ok = true) →
        ∀ before after,
          remaining todo reply = before ++ .statement (.writeRecoveryRequired false) :: after →
          ∀ row ∈ w.conn.visible.journal, row.status = .sending →
            ∃ nowUs, .statement (.recoverSending row.tableKey nowUs) ∈ before)
  | ⟨.bootReading, none⟩ => w.conn.tx = none
  | ⟨.bootReading, some reply⟩ =>
    w.conn.tx = none ∧ (reply.ok = true → reply.marker = w.conn.visible.recoveryRequired)
  | _ => True

structure MarkerInv (options : RuntimeOptions) (w : Runtime) : Prop where
  coherent : Coherent options w
  covered : w.conn.committed.Covered ∧ w.conn.visible.Covered
  known : (∀ row ∈ w.conn.committed.journal, row.tableKey ∈ options.tables) ∧
    ∀ row ∈ w.conn.visible.journal, row.tableKey ∈ options.tables
  dirty : w.recoveryMarkerDirty = true → w.Calm ∧ w.booted = true
  relies : ∀ c call, w.calls c = some call → w.Relies c call
  phase : ∀ c call, w.calls c = some call → (call.program.IsBoot ↔ w.booted = false)
  alone : w.booted = false → ∀ c d, w.calls c ≠ none → w.calls d ≠ none → c = d

namespace MarkerInv

/-! ### A call that begins or continues -/

/-- What another call relies on is still there after a statement is issued that does not
clear the marker. -/
theorem relies_of_other (h : MarkerInv options w) (hs : CallStep options w c w') {call : Call}
    (hd : d ≠ c) (hc : w.calls d = some call) {extra : List (ℕ × Sql)}
    (hq : w'.queue = w.queue ++ extra)
    (hextra : w.booted = true → w.markSendingSpans ≠ [] → ∀ entry ∈ extra, ¬ entry.2.ClearsMarker)
    (hspans : d ∈ w.markSendingSpans → d ∈ w'.markSendingSpans) : w'.Relies d call := by
  have hr := h.relies d call hc
  have hconn := hs.database.conn
  -- for a sender, the runtime is open and its span as well
  have hclear : ¬ call.program.IsBoot → d ∈ w.markSendingSpans →
      ∀ entry ∈ extra, ¬ entry.2.ClearsMarker := by
    intro hb hm
    refine hextra ?_ (List.ne_nil_of_mem hm)
    have hp := h.phase d call hc
    cases hopen : w.booted with
    | true => rfl
    | false => exact absurd (hp.2 hopen) hb
  have hcalm : ¬ call.program.IsBoot → d ∈ w.markSendingSpans → w.Calm → w'.Calm := by
    intro hb hm hcalm
    refine ⟨hconn ▸ hcalm.required, fun entry he => ?_⟩
    rw [hq, List.mem_append] at he
    exact he.elim (hcalm.queue entry) (hclear hb hm entry)
  obtain ⟨program, reply⟩ := call
  cases program with
  | sender route stage =>
    cases stage with
    | marking rows table todo marker =>
      cases marker with
      | false => exact ⟨hspans hr.1, hcalm id hr.1 hr.2⟩
      | true =>
        cases reply with
        | none =>
          obtain ⟨hm, before, after, hqueue, hafter⟩ := hr
          refine ⟨hspans hm, before, after ++ extra, by simp [hq, hqueue], fun entry he => ?_⟩
          rcases List.mem_append.1 he with he | he
          · exact hafter entry he
          · exact hclear id hm entry he
        | some reply => exact ⟨hspans hr.1, fun hok => hcalm id hr.1 (hr.2 hok)⟩
    | _ => trivial
  | script boot todo opened =>
    cases boot with
    | none => trivial
    | some restore =>
      cases restore with
      | true =>
        change (_ ∧ _ ∧ w'.conn.tx = none) ∧ _
        rw [hconn]
        exact hr
      | false =>
        intro hwrite
        refine ⟨(hr hwrite).1, fun hok before after hrem row hrow => ?_⟩
        rw [hconn] at hrow
        exact (hr hwrite).2 hok before after hrem row hrow
  | bootReading =>
    cases reply with
    | none =>
      change w'.conn.tx = none
      rw [hconn]
      exact hr
    | some reply =>
      change w'.conn.tx = none ∧ (reply.ok = true → reply.marker = w'.conn.visible.recoveryRequired)
      rw [hconn]
      exact hr
  | settle => trivial

/-- The rule for a call that begins or continues: what it relies on itself is left to show. -/
theorem continues (h : MarkerInv options w) (hs : CallStep options w c w')
    (extra : List (ℕ × Sql)) (hq : w'.queue = w.queue ++ extra)
    (hextra : w.booted = true → w.markSendingSpans ≠ [] ∨ w'.recoveryMarkerDirty = true →
      ∀ entry ∈ extra, ¬ entry.2.ClearsMarker)
    (hspans : ∀ d, d ≠ c → d ∈ w.markSendingSpans → d ∈ w'.markSendingSpans)
    (hdirty : w'.recoveryMarkerDirty = true → w.Calm ∧ w.booted = true)
    (hbooted : w'.booted = w.booted) (hknown : w.booted = false → w.calls c ≠ none)
    (hc : ∀ call, w'.calls c = some call →
      w'.Relies c call ∧ (call.program.IsBoot ↔ w.booted = false)) :
    MarkerInv options w' := by
  have hdb := hs.database
  refine ⟨h.coherent.callStep hs, hdb.conn ▸ h.covered, hdb.conn ▸ h.known, ?_, ?_, ?_, ?_⟩
  · intro hd
    obtain ⟨hcalm, hb⟩ := hdirty hd
    refine ⟨⟨hdb.conn ▸ hcalm.required, fun entry he => ?_⟩, hbooted ▸ hb⟩
    rw [hq, List.mem_append] at he
    exact he.elim (hcalm.queue entry) (hextra hb (.inr hd) entry)
  · intro d call hd
    by_cases hdc : d = c
    · subst hdc
      exact (hc call hd).1
    · rw [hs.calls_of_ne hdc] at hd
      exact h.relies_of_other hs hdc hd hq (fun hb hm => hextra hb (.inl hm)) (hspans d hdc)
  · intro d call hd
    rw [hbooted]
    by_cases hdc : d = c
    · subst hdc
      exact (hc call hd).2
    · rw [hs.calls_of_ne hdc] at hd
      exact h.phase d call hd
  · intro hb
    rw [hbooted] at hb
    have hold : ∀ d, w'.calls d ≠ none → w.calls d ≠ none := by
      intro d hd
      by_cases hdc : d = c
      · exact hdc ▸ hknown hb
      · exact hs.calls_of_ne hdc ▸ hd
    exact fun d e hd he => h.alone hb d e (hold d hd) (hold e he)

/-- A boot recovery that goes through opens the runtime; it was the only call. -/
theorem opens (h : MarkerInv options w) (hs : CallStep options w c w') (hb : w.booted = false)
    (hknown : w.calls c ≠ none) (hc : w'.calls = Function.update w.calls c none)
    (hd : w'.recoveryMarkerDirty = false) (hbooted : w'.booted = true) :
    MarkerInv options w' := by
  have hdb := hs.database
  have hnone : ∀ d, w'.calls d = none := by
    intro d
    by_cases hdc : d = c
    · rw [hc, hdc, Function.update_self]
    · rw [hc, Function.update_of_ne hdc]
      by_contra hne
      exact hdc (h.alone hb d c hne hknown)
  refine ⟨h.coherent.callStep hs, hdb.conn ▸ h.covered, hdb.conn ▸ h.known, ?_, ?_, ?_, ?_⟩
  · intro hd'
    rw [hd] at hd'
    cases hd'
  · intro d call hcall
    rw [hnone d] at hcall
    cases hcall
  · intro d call hcall
    rw [hnone d] at hcall
    cases hcall
  · intro hb'
    rw [hbooted] at hb'
    cases hb'

theorem booted_of (h : MarkerInv options w) {call : Call} (hc : w.calls c = some call)
    (hb : ¬ call.program.IsBoot) : w.booted = true := by
  cases hopen : w.booted with
  | true => rfl
  | false => exact absurd ((h.phase c call hc).2 hopen) hb

theorem closed_of (h : MarkerInv options w) {call : Call} (hc : w.calls c = some call)
    (hb : call.program.IsBoot) : w.booted = false := (h.phase c call hc).1 hb

/-- A sender that continues without a statement, or with one that leaves the marker alone. -/
theorem sender_continues (h : MarkerInv options w) (hs : CallStep options w c w')
    (extra : List (ℕ × Sql)) {program : Program} (hb : w.booted = true)
    (hq : w'.queue = w.queue ++ extra) (hextra : ∀ entry ∈ extra, ¬ entry.2.ClearsMarker)
    (hspans : ∀ d, d ≠ c → d ∈ w.markSendingSpans → d ∈ w'.markSendingSpans)
    (hdirty : w'.recoveryMarkerDirty = true → w.Calm) (hbooted : w'.booted = w.booted)
    (hc : w'.calls = Function.update w.calls c (some ⟨program, none⟩))
    (hr : w'.Relies c ⟨program, none⟩) (hp : ¬ program.IsBoot) : MarkerInv options w' := by
  refine h.continues hs _ hq (fun _ _ => hextra) hspans (fun hd => ⟨hdirty hd, hb⟩) hbooted
    (fun hf => absurd (hb.symm.trans hf) (by decide)) fun call hcall => ?_
  rw [hc, Function.update_self] at hcall
  obtain rfl := Option.some.inj hcall
  exact ⟨hr, iff_of_false hp (by simp [hb])⟩

/-- A call ends. -/
theorem call_ends (h : MarkerInv options w) (hs : CallStep options w c w')
    (hq : w'.queue = w.queue)
    (hspans : ∀ d, d ≠ c → d ∈ w.markSendingSpans → d ∈ w'.markSendingSpans)
    (hdirty : w'.recoveryMarkerDirty = w.recoveryMarkerDirty) (hbooted : w'.booted = w.booted)
    (hknown : w.booted = false → w.calls c ≠ none)
    (hc : w'.calls = Function.update w.calls c none) : MarkerInv options w' := by
  refine h.continues hs [] (by simp [hq]) (fun _ _ => by simp) hspans
    (fun hd => h.dirty (hdirty ▸ hd)) hbooted hknown fun call hcall => ?_
  rw [hc, Function.update_self] at hcall
  cases hcall

theorem not_clears_readStatement (nowUs : ℕ) (route : Route) :
    ¬ (readStatement options nowUs route).ClearsMarker := by
  cases route <;> exact id

theorem not_clears_allowed {sql : Sql} (h : sql.Allowed options none) : ¬ sql.ClearsMarker := by
  intro hc
  cases sql with
  | statement statement =>
    cases statement with
    | writeRecoveryRequired required => exact Option.some_ne_none _ h.1.symm
    | clearRecoveryMarkerIfSettled => exact h rfl
    | _ => exact hc
  | _ => exact hc

/-- A script that goes on does what it had left. -/
theorem script_next (h : MarkerInv options w) {boot : Option Bool} {done sql : Sql}
    {todo : List Sql} {opened : Bool} {reply : SqlReply}
    (hs : CallStep options w c
      (w.issue c sql (.script boot (sql :: todo) (opened || (some done = some .begin : Bool)))))
    (hc : w.calls c = some ⟨.script boot (done :: sql :: todo) opened, some reply⟩)
    (hok : reply.ok = true) :
    MarkerInv options
      (w.issue c sql (.script boot (sql :: todo) (opened || (some done = some .begin : Bool)))) := by
  have hanswer : ∀ answer, some reply = some answer → answer.ok = true :=
    fun answer ha => Option.some.inj ha ▸ hok
  have hphase := h.phase c _ hc
  have hr := h.relies c _ hc
  refine h.continues hs _ rfl (fun hb _ entry he => ?_) (fun _ _ => id) h.dirty rfl (by simp [hc])
    fun call hcall => ?_
  · obtain rfl := List.mem_singleton.1 he
    have hboot : boot = none := by
      by_contra hne
      exact absurd (hb.symm.trans (hphase.1 hne)) (by decide)
    subst hboot
    exact not_clears_allowed (h.coherent.fits c _ hc _ (List.mem_cons_of_mem _ List.mem_cons_self))
  · obtain rfl := Option.some.inj ((issue_calls_self ..).symm.trans hcall)
    refine ⟨?_, hphase⟩
    cases boot with
    | none => trivial
    | some restore =>
      cases restore with
      | true =>
        obtain ⟨⟨ho, hbegin, htx⟩, hrows⟩ := hr
        have hdone : done ≠ .begin := fun hd => hbegin (hd ▸ List.mem_cons_self)
        exact ⟨⟨by simp [ho, hdone], fun hm => hbegin (List.mem_cons_of_mem _ hm), htx⟩,
          fun _ => hrows hanswer⟩
      | false =>
        intro hwrite
        obtain ⟨⟨hcommit, hrollback⟩, hrows⟩ := hr (List.mem_cons_of_mem _ hwrite)
        exact ⟨⟨fun hm => hcommit (List.mem_cons_of_mem _ hm),
          fun hm => hrollback (List.mem_cons_of_mem _ hm)⟩, fun _ => hrows hanswer⟩

/-- A boot recovery that rolls back will not open the runtime. -/
theorem script_rollsBack (h : MarkerInv options w) {boot : Option Bool} {todo : List Sql}
    {reply : SqlReply}
    (hs : CallStep options w c (w.issue c .rollback (.script boot [.rollback] false)))
    (hc : w.calls c = some ⟨.script boot todo true, some reply⟩) :
    MarkerInv options (w.issue c .rollback (.script boot [.rollback] false)) := by
  have hr := h.relies c _ hc
  refine h.continues hs _ rfl (fun _ _ entry he => ?_) (fun _ _ => id) h.dirty rfl (by simp [hc])
    fun call hcall => ?_
  · obtain rfl := List.mem_singleton.1 he
    exact id
  · obtain rfl := Option.some.inj ((issue_calls_self ..).symm.trans hcall)
    have hphase := h.phase c _ hc
    refine ⟨?_, hphase⟩
    cases boot with
    | none => trivial
    | some restore =>
      cases restore with
      | true => exact absurd hr.1.1 (by decide)
      | false =>
        intro hwrite
        simp at hwrite

/-- The script of a boot begins. -/
theorem boot_continues (h : MarkerInv options w) {sql : Sql} {todo : List Sql} {reply : SqlReply}
    (hs : CallStep options w c w') (hc : w.calls c = some ⟨.bootReading, some reply⟩)
    (hq : w'.queue = w.queue ++ [(c, sql)])
    (hcalls : w'.calls = Function.update w.calls c (some ⟨.script (some false) todo false, none⟩))
    (hdirty : w'.recoveryMarkerDirty = w.recoveryMarkerDirty) (hmem : w'.booted = w.booted)
    (hspans : w'.markSendingSpans = w.markSendingSpans)
    (hr : w'.Relies c ⟨.script (some false) todo false, none⟩) : MarkerInv options w' := by
  have hb := h.closed_of hc trivial
  refine h.continues hs _ hq (fun hf _ => absurd (hb.symm.trans hf) (by decide))
    (fun d _ hd => hspans ▸ hd) (fun hd => h.dirty (hdirty ▸ hd)) hmem (by simp [hc])
    fun call hcall => ?_
  rw [hcalls, Function.update_self] at hcall
  obtain rfl := Option.some.inj hcall
  exact ⟨hr, iff_of_true (Option.some_ne_none _) hb⟩

/-- The first recovery writes the marker when the statements of all tables are before it. -/
theorem mem_before_clear {nowUs table : ℕ} {before after : List Sql}
    (h : recoverSending options nowUs ++ [.statement (.writeRecoveryRequired false)] =
      before ++ .statement (.writeRecoveryRequired false) :: after) (ht : table ∈ options.tables) :
    ∃ nowUs, .statement (.recoverSending table nowUs) ∈ before := by
  have hmem : .statement (.recoverSending table nowUs) ∈ recoverSending options nowUs :=
    List.mem_map.2 ⟨table, ht, rfl⟩
  rcases List.append_eq_append_iff.1 h with ⟨rest, rfl, -⟩ | ⟨rest, hrec, hrest⟩
  · exact ⟨nowUs, List.mem_append_left _ hmem⟩
  · cases rest with
    | nil => exact ⟨nowUs, by simpa [hrec] using hmem⟩
    | cons sql rest =>
      obtain rfl := (List.cons.inj hrest).1
      have hsql : Sql.statement (.writeRecoveryRequired false) ∈ recoverSending options nowUs :=
        hrec ▸ List.mem_append_right _ List.mem_cons_self
      obtain ⟨_, _, hsql⟩ := List.mem_map.1 hsql
      cases hsql

theorem not_writes_inTransaction {nowUs : ℕ} :
    Sql.statement (.writeRecoveryRequired false) ∉
      inTransaction (recoverSending options nowUs ++ [.statement .clearRecoveryMarkerIfSettled]) := by
  simp [inTransaction, recoverSending]

theorem callStep (h : MarkerInv options w) (hs : CallStep options w c w') :
    MarkerInv options w' := by
  have hs' := hs
  have hdirty := fun hd => (h.dirty hd).1
  have hmem : ∀ d, d ≠ c → d ∈ w.markSendingSpans → d ∈ c :: w.markSendingSpans :=
    fun d _ hd => List.mem_cons_of_mem _ hd
  have herase : ∀ d, d ≠ c → d ∈ w.markSendingSpans → d ∈ w.markSendingSpans.erase c :=
    fun d hne hd => (List.mem_erase_of_ne hne).2 hd
  have hsingle : ∀ {sql : Sql}, ¬ sql.ClearsMarker →
      ∀ entry ∈ [(c, sql)], ¬ entry.2.ClearsMarker := by
    intro sql hsql entry he
    obtain rfl := List.mem_singleton.1 he
    exact hsql
  cases hs with
  | beginFlush hb hc =>
    exact h.sender_continues hs' [] hb (by simp [put]) (by simp) (fun _ _ => id) hdirty
      rfl rfl trivial id
  | beginUnit hb hc =>
    exact h.sender_continues hs' _ hb rfl (hsingle id) (fun _ _ => id) hdirty rfl rfl trivial id
  | beginScript hb hc hall =>
    exact h.sender_continues hs' _ hb rfl (hsingle (not_clears_allowed (hall _ List.mem_cons_self)))
      (fun _ _ => id) hdirty rfl rfl trivial fun hne => hne rfl
  | beginEmpty hb hc =>
    exact h.call_ends hs' rfl (fun _ _ => id) rfl rfl (by simp [hb]) rfl
  | beginSettle hb hc hspan =>
    refine h.continues hs' _ rfl (fun _ hor => ?_) (fun _ _ => id) (fun hd => nomatch hd) rfl
      (by simp [hb]) fun call hcall => ?_
    · rcases hor with hor | hor
      · exact absurd hspan hor
      · cases hor
    · obtain rfl := Option.some.inj ((issue_calls_self ..).symm.trans hcall)
      exact ⟨trivial, iff_of_false id (by simp [hb])⟩
  | skipSettle => exact h
  | startFlush hc hq =>
    exact h.sender_continues hs' _ (h.booted_of hc id) rfl (hsingle (not_clears_readStatement _ _))
      (fun _ _ => id) hdirty rfl rfl trivial id
  | rowsRead hc hok =>
    exact h.sender_continues hs' [] (h.booted_of hc id) (by simp [put]) (by simp)
      (fun _ _ => id) hdirty rfl rfl trivial id
  | @markDirty route rows table todo hc hd =>
    have hcalm := hdirty hd
    refine h.sender_continues hs' _ (h.booted_of hc id) rfl (hsingle id) hmem hdirty rfl rfl ?_ id
    refine ⟨List.mem_cons_self, hcalm.required, fun entry he => ?_⟩
    exact (List.mem_append.1 he).elim (hcalm.queue entry) (hsingle id entry)
  | markClean hc hd =>
    refine h.sender_continues hs' _ (h.booted_of hc id) rfl (hsingle (by simp [Sql.ClearsMarker]))
      hmem hdirty rfl rfl ?_ id
    exact ⟨List.mem_cons_self, w.queue, [], rfl, by simp⟩
  | @markerWritten route rows table todo reply hc hok =>
    obtain ⟨hm, hcalm⟩ := h.relies c _ hc
    have hcalm := hcalm hok
    refine h.sender_continues hs' _ (h.booted_of hc id) rfl (hsingle id) (fun _ _ => id)
      (fun _ => hcalm) rfl rfl ?_ id
    refine ⟨hm, hcalm.required, fun entry he => ?_⟩
    exact (List.mem_append.1 he).elim (hcalm.queue entry) (hsingle id entry)
  | marked hc hok =>
    exact h.sender_continues hs' [] (h.booted_of hc id) (by simp [put, exitMarkSending])
      (by simp) herase hdirty rfl rfl trivial id
  | markFails hc hok =>
    exact h.call_ends hs' rfl herase rfl rfl (by simp [hc]) rfl
  | allMarked hc =>
    exact h.sender_continues hs' [] (h.booted_of hc id) (by simp [put]) (by simp)
      (fun _ _ => id) hdirty rfl rfl trivial id
  | sends hc =>
    exact h.sender_continues hs' [] (h.booted_of hc id) (by simp [put]) (by simp)
      (fun _ _ => id) hdirty rfl rfl trivial id
  | resends hc =>
    refine h.continues hs' [] (by simp) (by simp) (fun _ _ => id) h.dirty rfl
      (by simp [hc]) fun call hcall => ⟨?_, h.phase c call hcall⟩
    obtain rfl := Option.some.inj (hc.symm.trans hcall)
    trivial
  | responded hc hst ht =>
    exact h.sender_continues hs' _ (h.booted_of hc id) rfl (hsingle id) (fun _ _ => id) hdirty rfl rfl
      trivial id
  | settleNext hc hok =>
    exact h.sender_continues hs' _ (h.booted_of hc id) rfl (hsingle id) (fun _ _ => id) hdirty rfl rfl
      trivial id
  | nextPass hc hf hm hw =>
    exact h.sender_continues hs' _ (h.booted_of hc id) rfl (hsingle (not_clears_readStatement _ _))
      (fun _ _ => id) hdirty rfl rfl trivial id
  | senderEnds hc hf hm =>
    exact h.call_ends hs' rfl (fun _ _ => id) rfl rfl (by simp [hc]) rfl
  | scriptNext hc hok => exact h.script_next hs' hc hok
  | @scriptDone boot todo opened reply hc hok ht hr =>
    cases boot with
    | none => exact h.call_ends hs' rfl (fun _ _ => id) rfl rfl (by simp [hc]) rfl
    | some restore =>
      have hb := h.closed_of hc (Option.some_ne_none _)
      cases restore <;> exact h.opens hs' hb (by simp [hc]) rfl rfl rfl
  | scriptRollsBack hc hok => exact h.script_rollsBack hs' hc
  | scriptEnds hc =>
    exact h.call_ends hs' rfl (fun _ _ => id) rfl rfl (by simp [hc]) rfl
  | bootSkips hc hok hm =>
    exact h.opens hs' (h.closed_of hc trivial) (by simp [hc]) rfl rfl rfl
  | bootInitializes hc hall =>
    refine h.boot_continues hs' hc rfl rfl rfl rfl rfl fun _ => ⟨?_, ?_⟩
    · rw [← hall]
      simp [recoverSending]
    · intro _ before after hrem row hrow _
      rw [remaining, ← hall] at hrem
      exact mem_before_clear hrem (h.known.2 row hrow)
  | bootRecovers hc =>
    exact h.boot_continues hs' hc rfl rfl rfl rfl rfl fun hwrite =>
      absurd hwrite not_writes_inTransaction
  | bootFails hc => exact h.call_ends hs' rfl (fun _ _ => id) rfl rfl (by simp [hc]) rfl
  | settleEnds hc => exact h.call_ends hs' rfl (fun _ _ => id) rfl rfl (by simp [hc]) rfl

/-! ### A statement that runs -/

theorem required_exec {sql : Sql} {statement : JournalStatement} {store store' : LocalStore}
    (hs : w.statementOf sql = some statement) (hn : ¬ sql.ClearsMarker)
    (he : statement.exec store = some store') (h : store.RecoveryRequired) :
    store'.RecoveryRequired := by
  cases statement with
  | insert rows =>
    rw [LocalStore.RecoveryRequired, (JournalStatement.exec_insert he).2]
    exact h
  | writeRecoveryRequired required =>
    cases he
    cases required with
    | true => exact fun hm => nomatch hm
    | false =>
      cases sql with
      | statement statement =>
        cases hs
        exact absurd rfl hn
      | _ => cases hs
  | clearRecoveryMarkerIfSettled =>
    cases sql with
    | statement statement =>
      cases hs
      exact absurd trivial hn
    | _ => cases hs
  | _ =>
    cases he
    exact h

/-- A statement keeps what the memory says about the marker, unless it takes the marker
back. -/
theorem calm_executes {fails : Bool} {sql : Sql} (he : Executes w fails c sql w') (h : w.Calm)
    (hk : w.RollsBack fails sql → w.conn.visible.RecoveryRequired →
      w.conn.committed.RecoveryRequired) : w'.Calm := by
  have hmem : ∀ entry ∈ w'.queue, entry ∈ w.queue := by
    intro entry hentry
    rw [he.queue]
    exact List.mem_cons_of_mem _ hentry
  have hhead : ¬ sql.ClearsMarker := h.queue (c, sql) (he.queue ▸ List.mem_cons_self)
  refine ⟨?_, fun entry hentry => h.queue entry (hmem entry hentry)⟩
  cases he.effect with
  | nothing hv => exact hv ▸ h.required
  | commit _ hc => exact hc ▸ h.required
  | rollback hr hc => exact hc ▸ hk hr h.required
  | alone hs hex _ hc => exact hc ▸ required_exec hs hhead hex h.required
  | inBlock hs hex _ hc => exact hc ▸ required_exec hs hhead hex h.required

/-- A store stays covered, and its journals those of the registry. -/
theorem statement_keeps (h : MarkerInv options w) {sql : Sql} {statement : JournalStatement}
    {store : LocalStore} (hq : (c, sql) ∈ w.queue) (hs : w.statementOf sql = some statement)
    (he : statement.exec w.conn.visible = some store) :
    store.Covered ∧ ∀ row ∈ store.journal, row.tableKey ∈ options.tables := by
  have hi := h.coherent.issued hq hs
  constructor
  · refine h.covered.2.exec he ?_ ?_ ?_
    · rintro table updates rfl
      cases hi with
      | mark hc => exact .inr (h.relies c _ hc).2.required
      | settle hc =>
        refine .inl fun update hu hsending => ?_
        have hvalid := (h.coherent.fits c _ hc).2 update (List.mem_of_mem_filter hu)
        rw [hsending] at hvalid
        exact absurd hvalid (by decide)
      | script hc ha => exact ha.elim
    · rintro rows rfl row hrow
      rw [(h.coherent.inserted false hq hs hrow).1]
      decide
    · intro hwrite row hrow hsending
      subst hwrite
      cases hi with
      | @script boot todo opened statement hc ha =>
        obtain rfl : boot = some false := ha.1
        obtain ⟨nowUs, hmem⟩ := (h.relies c _ hc List.mem_cons_self).2 (by simp) [] todo rfl row hrow
          hsending
        exact absurd hmem List.not_mem_nil
  · intro row' hrow'
    rcases JournalStatement.mem_exec he hrow' with ⟨row, hrow, hsame⟩ | ⟨rows, rfl, hrow⟩
    · exact hsame.2.1 ▸ h.known.2 row hrow
    · exact (h.coherent.inserted false hq hs hrow).2.1

/-- What another call relies on is still there after a statement. -/
theorem relies_executes_other (h : MarkerInv options w) {fails : Bool} {sql : Sql}
    (he : Executes w fails c sql w') (hcalm : w.Calm → w'.Calm) {call : Call} (hd : d ≠ c)
    (hc : w.calls d = some call) : w'.Relies d call := by
  obtain ⟨program', hc', -⟩ := h.coherent.awaited (c, sql) (he.queue ▸ List.mem_cons_self)
  have hr := h.relies d call hc
  have hboot : ¬ call.program.IsBoot := fun hb =>
    hd (h.alone (h.closed_of hc hb) d c (by simp [hc]) (by simp [hc']))
  obtain ⟨program, reply⟩ := call
  cases program with
  | sender route stage =>
    cases stage with
    | marking rows table todo marker =>
      cases marker with
      | false => exact ⟨he.spans ▸ hr.1, hcalm hr.2⟩
      | true =>
        cases reply with
        | none =>
          obtain ⟨hm, before, after, hqueue, hafter⟩ := hr
          refine ⟨he.spans ▸ hm, ?_⟩
          rw [he.queue] at hqueue
          cases before with
          | nil => exact absurd (Prod.ext_iff.1 (List.cons.inj hqueue).1).1.symm hd
          | cons head before => exact ⟨before, after, (List.cons.inj hqueue).2, hafter⟩
        | some reply => exact ⟨he.spans ▸ hr.1, fun hok => hcalm (hr.2 hok)⟩
    | _ => trivial
  | script boot todo opened =>
    cases boot with
    | none => trivial
    | some restore => exact absurd (Option.some_ne_none _) hboot
  | bootReading => exact absurd trivial hboot
  | settle => trivial

/-- A sender that wrote the marker finds it written. -/
theorem relies_marker (h : MarkerInv options w) {fails : Bool} {sql : Sql}
    (he : Executes w fails c sql w') {route : Route} {rows : List JournalRow} {table : ℕ}
    {todo : List ℕ} (hc : w.calls c = some ⟨.sender route (.marking rows table todo true), none⟩)
    (ha : (Program.sender route (.marking rows table todo true)).Awaits sql)
    (hok : (w.execSql fails sql).2.ok = true) : w'.Calm := by
  obtain ⟨-, before, after, hqueue, hafter⟩ := h.relies c _ hc
  obtain rfl : sql = .statement (.writeRecoveryRequired true) := by cases route <;> exact ha
  -- the marker write is at the head, so nothing behind it clears the marker
  have hhead : w'.queue = after := by
    rw [he.queue] at hqueue
    cases before with
    | nil => exact (List.cons.inj hqueue).2
    | cons head before =>
      have hnd := h.coherent.nodup
      rw [he.queue, List.map_cons, List.nodup_cons] at hnd
      refine absurd (List.mem_map.2 ⟨_, ?_, rfl⟩) hnd.1
      rw [(List.cons.inj hqueue).2]
      exact List.mem_append_right _ List.mem_cons_self
  refine ⟨?_, hhead ▸ hafter⟩
  have hwritten : ∀ statement store,
      w.statementOf (.statement (.writeRecoveryRequired true)) = some statement →
      statement.exec w.conn.visible = some store → store.RecoveryRequired := by
    intro statement store hs hex
    cases hs
    cases hex
    exact fun hm => nomatch hm
  cases he.effect with
  | nothing _ _ _ _ hn => cases hn hok
  | commit hsql => cases hsql
  | rollback hr => exact hr.elim
  | alone hs hex _ hconn => exact hconn ▸ hwritten _ _ hs hex
  | inBlock hs hex _ hconn => exact hconn ▸ hwritten _ _ hs hex

/-- A statement of a script without BEGIN runs by itself. -/
theorem tx_executes {fails : Bool} {sql : Sql} (he : Executes w fails c sql w')
    (htx : w.conn.tx = none) (hb : sql ≠ .begin) : w'.conn.tx = none := by
  cases he.effect with
  | nothing _ _ ht =>
    rcases ht with ht | ht
    · rw [htx] at ht
      exact Option.not_isSome_iff_eq_none.1 (by simp [ht])
    · exact absurd ht hb
  | commit _ hc => rw [hc]
  | rollback _ hc =>
    rw [hc]
    rfl
  | alone _ _ _ hc => rw [hc]
  | inBlock _ _ ht => simp [htx] at ht

/-- A statement of a boot recovery leaves a row `sending`, or not terminal, only where it was
so and the statement is not about it. -/
theorem boot_moves {restore : Bool} {statement : JournalStatement} {store store' : LocalStore}
    (ha : (Sql.statement statement).Allowed options (some restore))
    (he : statement.exec store = some store') {row' : JournalRow} (hrow' : row' ∈ store'.journal) :
    ∃ row ∈ store.journal, row'.tableKey = row.tableKey ∧
      (row'.status.isTerminal = false → row.status.isTerminal = false ∧
        statement ≠ .quarantineRecovered row.tableKey) ∧
      (row'.status = .sending → row.status = .sending ∧
        ∀ nowUs, statement ≠ .recoverSending row.tableKey nowUs) := by
  cases statement with
  | recoverSending table nowUs =>
    cases he
    obtain ⟨row, hrow, rfl⟩ := List.mem_map.1 hrow'
    refine ⟨row, hrow, (JournalRow.sameMutation_moveStatus ..).2.1, fun ht => ⟨?_, by simp⟩, ?_⟩
    · by_cases hs : row.status ∈ [MutationStatus.sending]
      · rw [List.mem_singleton.1 hs]
        rfl
      · rwa [JournalRow.moveStatus_of_status hs] at ht
    · intro hs
      by_cases hm : row.tableKey = table ∧ row.status ∈ [MutationStatus.sending]
      · rw [JournalRow.moveStatus_moved hm.1 hm.2] at hs
        cases hs
      · rw [JournalRow.moveStatus, if_neg hm] at hs
        refine ⟨hs, fun _ heq => hm ⟨?_, by simp [hs]⟩⟩
        cases heq
        rfl
  | quarantineRecovered table =>
    cases he
    obtain ⟨row, hrow, rfl⟩ := List.mem_map.1 hrow'
    have hsources : ∀ {status : MutationStatus}, status.isTerminal = false →
        status ∈ [MutationStatus.pending, .sending, .failed] := by
      intro status ht
      cases status with
      | pending => simp
      | sending => simp
      | failed => simp
      | _ => cases ht
    have hmoved : ∀ {P : MutationStatus → Prop}, ¬ P .quarantined →
        P (row.moveStatus table [.pending, .sending, .failed] .quarantined none).status →
        P row.status ∧ ¬ (row.tableKey = table ∧
          row.status ∈ [MutationStatus.pending, .sending, .failed]) := by
      intro P hn hp
      by_cases hm : row.tableKey = table ∧
          row.status ∈ [MutationStatus.pending, .sending, .failed]
      · rw [JournalRow.moveStatus_moved hm.1 hm.2] at hp
        exact absurd hp hn
      · rw [JournalRow.moveStatus, if_neg hm] at hp
        exact ⟨hp, hm⟩
    refine ⟨row, hrow, (JournalRow.sameMutation_moveStatus ..).2.1, fun ht => ?_, fun hs => ?_⟩
    · obtain ⟨hp, hm⟩ := hmoved (P := fun status => status.isTerminal = false) (by decide) ht
      refine ⟨hp, fun heq => hm ⟨?_, hsources hp⟩⟩
      cases heq
      rfl
    · exact ⟨(hmoved (P := fun status => status = .sending) (by decide) hs).1, by simp⟩
  | writeRecoveryRequired required =>
    cases he
    exact ⟨row', hrow', rfl, fun ht => ⟨ht, by simp⟩, fun hs => ⟨hs, by simp⟩⟩
  | clearRecoveryMarkerIfSettled =>
    cases he
    exact ⟨row', hrow', rfl, fun ht => ⟨ht, by simp⟩, fun hs => ⟨hs, by simp⟩⟩
  | retryFailed table nowUs => cases ha
  | delete table status mutationIds => cases ha.1
  | insert rows => exact ha.elim
  | statusUpdates table updates => exact ha.elim

/-- The same of a statement of a boot recovery that has succeeded on the connection. -/
theorem boot_executes {fails restore : Bool} {sql : Sql} (he : Executes w fails c sql w')
    (ha : sql.Allowed options (some restore)) (hok : (w.execSql fails sql).2.ok = true)
    (hr : w.RollsBack fails sql → w.conn.tx = none) {row' : JournalRow}
    (hrow' : row' ∈ w'.conn.visible.journal) :
    ∃ row ∈ w.conn.visible.journal, row'.tableKey = row.tableKey ∧
      (row'.status.isTerminal = false → row.status.isTerminal = false ∧
        sql ≠ .statement (.quarantineRecovered row.tableKey)) ∧
      (row'.status = .sending → row.status = .sending ∧
        ∀ nowUs, sql ≠ .statement (.recoverSending row.tableKey nowUs)) := by
  have hkept : (∀ statement, sql ≠ .statement statement) → row' ∈ w.conn.visible.journal →
      ∃ row ∈ w.conn.visible.journal, row'.tableKey = row.tableKey ∧
        (row'.status.isTerminal = false → row.status.isTerminal = false ∧
          sql ≠ .statement (.quarantineRecovered row.tableKey)) ∧
        (row'.status = .sending → row.status = .sending ∧
          ∀ nowUs, sql ≠ .statement (.recoverSending row.tableKey nowUs)) :=
    fun hn hrow => ⟨row', hrow, rfl, fun ht => ⟨ht, hn _⟩, fun hs => ⟨hs, fun _ => hn _⟩⟩
  have hmoved : ∀ statement store, w.statementOf sql = some statement →
      statement.exec w.conn.visible = some store → row' ∈ store.journal →
      ∃ row ∈ w.conn.visible.journal, row'.tableKey = row.tableKey ∧
        (row'.status.isTerminal = false → row.status.isTerminal = false ∧
          sql ≠ .statement (.quarantineRecovered row.tableKey)) ∧
        (row'.status = .sending → row.status = .sending ∧
          ∀ nowUs, sql ≠ .statement (.recoverSending row.tableKey nowUs)) := by
    intro statement store hs hex hrow
    cases sql with
    | statement statement' =>
      cases hs
      obtain ⟨row, hmem, ht, hterm, hsend⟩ := boot_moves ha hex hrow
      refine ⟨row, hmem, ht, fun hf => ⟨(hterm hf).1, ?_⟩, fun hf => ⟨(hsend hf).1, ?_⟩⟩
      · exact fun heq => (hterm hf).2 (Sql.statement.inj heq)
      · exact fun nowUs heq => (hsend hf).2 nowUs (Sql.statement.inj heq)
    | insertMutations table rows => cases ha.1
    | _ => cases hs
  cases he.effect with
  | nothing hv _ _ _ hn =>
    refine hkept ?_ (hv ▸ hrow')
    rintro statement rfl
    cases hn hok
  | commit hsql hc =>
    rw [hc] at hrow'
    exact hkept (by simp [hsql]) hrow'
  | rollback hroll hc =>
    refine hkept ?_ ?_
    · rintro statement rfl
      exact hroll
    · rw [hc, rollback_visible] at hrow'
      rw [visible_idle (hr hroll)]
      exact hrow'
  | alone hs hex _ hc =>
    rw [hc] at hrow'
    exact hmoved _ _ hs hex hrow'
  | inBlock hs hex _ hc =>
    rw [hc] at hrow'
    exact hmoved _ _ hs hex hrow'

theorem relies_script (h : MarkerInv options w) {fails restore : Bool} {sql : Sql}
    (he : Executes w fails c sql w') {todo : List Sql} {opened : Bool}
    (hc : w.calls c = some ⟨.script (some restore) (sql :: todo) opened, none⟩) :
    w'.Relies c ⟨.script (some restore) (sql :: todo) opened, some (w.execSql fails sql).2⟩ := by
  have ha : sql.Allowed options (some restore) := h.coherent.fits c _ hc sql List.mem_cons_self
  have hr := h.relies c _ hc
  cases restore with
  | true =>
    obtain ⟨⟨ho, hb, htx⟩, hrows⟩ := hr
    have hsql : sql ≠ .begin := fun heq => hb (heq ▸ List.mem_cons_self)
    refine ⟨⟨ho, hb, tx_executes he htx hsql⟩, fun hok row' hrow' => ?_⟩
    obtain ⟨row, hrow, ht, hterm, -⟩ := boot_executes he ha (hok _ rfl) (fun _ => htx) hrow'
    cases hf : row'.status.isTerminal with
    | true => exact .inl rfl
    | false =>
      obtain ⟨hrf, hne⟩ := hterm hf
      refine .inr (ht ▸ ?_)
      rcases hrows (by simp) row hrow with hrt | hmem
      · rw [hrf] at hrt
        cases hrt
      · exact (List.mem_cons.1 hmem).resolve_left hne.symm
  | false =>
    intro hwrite
    obtain ⟨⟨hcommit, hrollback⟩, hrows⟩ := hr hwrite
    refine ⟨⟨hcommit, hrollback⟩, fun hok before after hrem row' hrow' hs => ?_⟩
    have hroll : w.RollsBack fails sql → w.conn.tx = none := by
      intro hroll
      cases sql with
      | commit => exact absurd List.mem_cons_self hcommit
      | rollback => exact absurd List.mem_cons_self hrollback
      | _ => exact hroll.elim
    obtain ⟨row, hrow, ht, -, hsend⟩ := boot_executes he ha (hok _ rfl) hroll hrow'
    obtain ⟨hrs, hne⟩ := hsend hs
    have hrem : todo = before ++ .statement (.writeRecoveryRequired false) :: after := hrem
    obtain ⟨nowUs, hmem⟩ := hrows (by simp) (sql :: before) after (by simp [remaining, hrem]) row hrow
      hrs
    exact ⟨nowUs, ht ▸ (List.mem_cons.1 hmem).resolve_left (hne nowUs).symm⟩

/-- What the call relies on whose statement runs. -/
theorem relies_executes_self (h : MarkerInv options w) {fails : Bool} {sql : Sql}
    (he : Executes w fails c sql w') (hcalm : w.Calm → w'.Calm) {program : Program}
    (hc : w.calls c = some ⟨program, none⟩) (ha : program.Awaits sql) :
    w'.Relies c ⟨program, some (w.execSql fails sql).2⟩ := by
  have hr := h.relies c _ hc
  cases program with
  | sender route stage =>
    cases stage with
    | marking rows table todo marker =>
      cases marker with
      | false => exact ⟨he.spans ▸ hr.1, hcalm hr.2⟩
      | true => exact ⟨he.spans ▸ hr.1, h.relies_marker he hc ha⟩
    | _ => trivial
  | script boot todo opened =>
    cases boot with
    | none => trivial
    | some restore =>
      cases todo with
      | nil => cases ha
      | cons head todo =>
        obtain rfl : head = sql := Option.some.inj ha
        exact h.relies_script he hc
  | bootReading =>
    obtain rfl : sql = .readMarker := ha
    have htx : w'.conn.tx = none := tx_executes he hr (by simp)
    refine ⟨htx, fun hok => ?_⟩
    rw [execSql_marker hok]
    cases he.effect with
    | nothing hv => rw [hv]
    | commit hsql => cases hsql
    | rollback hroll => exact hroll.elim
    | alone hs => cases hs
    | inBlock hs => cases hs
  | settle => trivial

theorem executes (h : MarkerInv options w) {fails : Bool} {sql : Sql}
    (he : Executes w fails c sql w')
    (hk : w.RollsBack fails sql → w.conn.visible.RecoveryRequired →
      w.conn.committed.RecoveryRequired) : MarkerInv options w' := by
  have hq : (c, sql) ∈ w.queue := he.queue ▸ List.mem_cons_self
  obtain ⟨program, hc, ha⟩ := h.coherent.awaited _ hq
  have hcalm : w.Calm → w'.Calm := fun hcalm => calm_executes he hcalm hk
  have hcalls : w'.calls = Function.update w.calls c (some ⟨program, some (w.execSql fails sql).2⟩) := by
    rw [he.calls, hc]
    rfl
  have hkept := he.effect.keeps
    (P := fun store => store.Covered ∧ ∀ row ∈ store.journal, row.tableKey ∈ options.tables)
    ⟨h.covered.1, h.known.1⟩ ⟨h.covered.2, h.known.2⟩ fun _ _ hs hex => h.statement_keeps hq hs hex
  have hold : ∀ d, w'.calls d ≠ none → w.calls d ≠ none := by
    intro d hd
    by_cases hdc : d = c
    · rw [hdc, hc]
      exact Option.some_ne_none _
    · rwa [hcalls, Function.update_of_ne hdc] at hd
  refine ⟨h.coherent.executes he, ⟨hkept.1.1, hkept.2.1⟩, ⟨hkept.1.2, hkept.2.2⟩, ?_, ?_, ?_, ?_⟩
  · intro hd
    obtain ⟨hd, hb⟩ := h.dirty (he.dirty ▸ hd)
    exact ⟨hcalm hd, he.booted ▸ hb⟩
  · intro d call hd
    rw [hcalls, update_eq_some] at hd
    rcases hd with ⟨rfl, rfl⟩ | ⟨hdc, hd⟩
    · exact h.relies_executes_self he hcalm hc ha
    · exact h.relies_executes_other he hcalm hdc hd
  · intro d call hd
    rw [he.booted]
    rw [hcalls, update_eq_some] at hd
    rcases hd with ⟨rfl, rfl⟩ | ⟨hdc, hd⟩
    · have hphase := h.phase d _ hc
      exact hphase
    · exact h.phase d call hd
  · intro hb d e hd he'
    exact h.alone (he.booted ▸ hb) d e (hold d hd) (hold e he')

/-! ### Crashes and boots -/

theorem crashed (h : MarkerInv options w) : MarkerInv options w.crashed :=
  ⟨Coherent.crashed w, ⟨h.covered.1, h.covered.1⟩, ⟨h.known.1, h.known.1⟩, (fun hd => nomatch hd),
    (fun _ _ hc => nomatch hc), (fun _ _ hc => nomatch hc), fun _ _ _ hc => absurd rfl hc⟩

theorem boots (h : MarkerInv options w) {nowUs : ℕ} {restore : Bool} :
    MarkerInv options (w.crashed.bootCall options c nowUs restore) := by
  have hcoh : Coherent options (w.crashed.bootCall options c nowUs restore) := Coherent.boot w
  -- a boot issues its first statement, and is the only call
  have hissue : ∀ sql program, Coherent options (w.crashed.issue c sql program) →
      program.IsBoot → (w.crashed.issue c sql program).Relies c ⟨program, none⟩ →
      MarkerInv options (w.crashed.issue c sql program) := by
    intro sql program hcoh hp hr
    refine ⟨hcoh, ⟨h.covered.1, h.covered.1⟩, ⟨h.known.1, h.known.1⟩, (fun hd => nomatch hd), ?_, ?_,
      ?_⟩
    · intro d call hd
      obtain ⟨rfl, rfl⟩ | ⟨-, hd⟩ := update_eq_some.1 hd
      · exact hr
      · cases hd
    · intro d call hd
      obtain ⟨rfl, rfl⟩ | ⟨-, hd⟩ := update_eq_some.1 hd
      · exact iff_of_true hp rfl
      · cases hd
    · intro _ d e hd he
      have hcall : ∀ f, (w.crashed.issue c sql program).calls f ≠ none → f = c := by
        intro f hf
        by_contra hne
        exact hf (Function.update_of_ne hne ..)
      rw [hcall d hd, hcall e he]
  unfold bootCall at hcoh ⊢
  split at hcoh <;> rename_i hrestore
  · rw [if_pos hrestore]
    cases hs : recoverSending options nowUs ++ quarantineRecovered options ++
      [.statement .clearRecoveryMarkerIfSettled] with
    | nil => simp at hs
    | cons sql todo =>
      rw [hs] at hcoh
      refine hissue sql _ hcoh (Option.some_ne_none _) ⟨⟨rfl, ?_, rfl⟩, fun _ row hrow => .inr ?_⟩
      · rw [← hs]
        simp [recoverSending, quarantineRecovered]
      · rw [remaining, ← hs]
        refine List.mem_append_left _ (List.mem_append_right _ ?_)
        exact List.mem_map.2 ⟨row.tableKey, h.known.1 row hrow, rfl⟩
  · rw [if_neg hrestore]
    exact hissue _ _ hcoh trivial rfl

end MarkerInv

end Runtime

end Mutation
