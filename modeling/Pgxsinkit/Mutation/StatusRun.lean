/-
Every change of a status is one the status machine allows, when the senders have their rows
for themselves.

The statements do not look at the status a row has when they run.  They keep to the table of
transitions because a sender reads `pending` rows, nobody else writes them until it has
settled them, and the other statements choose their rows by status.
-/
import Pgxsinkit.Mutation.Custody

namespace Mutation

open Connection Runs

/-- The rows that are in both stores went from status to status as the table allows. -/
def LocalStore.Follows (store store' : LocalStore) : Prop :=
  ∀ row ∈ store.journal, ∀ row' ∈ store'.journal, row'.mutationId = row.mutationId →
    row'.status = row.status ∨ isValidMutationTransition row.status row'.status = true

/-- The event ends the process: what was not committed is gone. -/
def RuntimeEvent.endsProcess : RuntimeEvent → Bool
  | .crash => true
  | .boot _ _ _ => true
  | _ => false

theorem not_valid_of_terminal {source target : MutationStatus} (h : source.isTerminal = true) :
    isValidMutationTransition source target = false := by
  cases source <;> cases target <;> first | rfl | cases h

namespace Runtime

variable {options : RuntimeOptions} {w w' : Runtime} {c : ℕ}

theorem follows_refl (store : LocalStore) : store.Follows store :=
  fun _ hrow _ hrow' hid => .inl (by rw [eq_of_mutationId hrow hrow' hid])

theorem Custody.executes_follows (h : Custody options [.pending] w) {fails : Bool} {sql : Sql}
    (hser : Serialized [.pending] w fails sql) (he : Executes w fails c sql w') :
    w.conn.visible.Follows w'.conn.visible := by
  have hq : (c, sql) ∈ w.queue := he.queue ▸ List.mem_cons_self
  have hstatement : ∀ statement store, w.statementOf sql = some statement →
      statement.exec w.conn.visible = some store → w.conn.visible.Follows store := by
    intro statement store hs hex row hrow row' hrow' hid
    rcases h.statement_moves (by simp) hser hq hs hex hrow' with ⟨rows, rfl, hnew⟩ | ⟨old, hold, hmoved⟩
    · have hle := (h.coherent.inserted fails hq hs hnew).2.2.1
      exact absurd (hid ▸ h.fresh.2 row hrow) (Nat.not_lt.2 hle)
    · obtain rfl := eq_of_mutationId hrow hold (hmoved.same.1.symm.trans hid)
      rcases hmoved.change with hsame | hvalid | ⟨hpending, hsending⟩
      · exact .inl (by rw [hsame])
      · exact .inr hvalid
      · refine .inr ?_
        rw [List.mem_singleton.1 hpending, hsending]
        rfl
  cases he.effect with
  | nothing hv =>
    rw [hv]
    exact follows_refl _
  | commit _ hc =>
    rw [hc]
    exact follows_refl _
  | rollback hr hc =>
    rw [hc]
    intro row hrow row' hrow' hid
    exact .inl (by rw [h.agrees (hser.rollbacks hr) row' hrow' row hrow hid.symm])
  | alone hs hex _ hc =>
    rw [hc]
    exact hstatement _ _ hs hex
  | inBlock hs hex _ hc =>
    rw [hc]
    exact hstatement _ _ hs hex

/-! ### Terminal rows -/

/-- A row that is terminal in the committed store has that status in the open block as well. -/
structure StatusInv (options : RuntimeOptions) (w : Runtime) : Prop where
  custody : Custody options [.pending] w
  settled : ∀ row ∈ w.conn.committed.journal, row.status.isTerminal = true →
    ∀ row' ∈ w.conn.visible.journal, row'.mutationId = row.mutationId → row'.status = row.status

/-- The mutation is known and has the one status wherever it has a row. -/
structure HasStatus (w : Runtime) (mutationId : ℕ) (status : MutationStatus) : Prop where
  fresh : mutationId < w.nextMutationId
  committed : ∀ row ∈ w.conn.committed.journal, row.mutationId = mutationId → row.status = status
  visible : ∀ row ∈ w.conn.visible.journal, row.mutationId = mutationId → row.status = status

/-- A statement keeps the status of a mutation that has a terminal one. -/
theorem HasStatus.executes {mutationId : ℕ} {status : MutationStatus}
    (h : HasStatus w mutationId status) (hterm : status.isTerminal = true)
    (hi : Custody options [.pending] w) {fails : Bool} {sql : Sql}
    (hser : Serialized [.pending] w fails sql) (he : Executes w fails c sql w') :
    HasStatus w' mutationId status := by
  have hq : (c, sql) ∈ w.queue := he.queue ▸ List.mem_cons_self
  have hnext : w.nextMutationId ≤ w'.nextMutationId :=
    he.nextMutationId ▸ execSql_nextMutationId_le w fails sql
  obtain ⟨hcom, hvis⟩ := he.effect.keeps
    (P := fun store => ∀ row ∈ store.journal, row.mutationId = mutationId → row.status = status)
    h.committed h.visible fun statement store hs hex row' hrow' hid => by
      rcases hi.statement_moves (by simp) hser hq hs hex hrow' with
        ⟨rows, rfl, hnew⟩ | ⟨row, hrow, hmoved⟩
      · have hle := (hi.coherent.inserted fails hq hs hnew).2.2.1
        exact absurd (hid ▸ h.fresh) (Nat.not_lt.2 hle)
      · have hold := h.visible row hrow (hmoved.same.1.symm.trans hid)
        rcases hmoved.change with hsame | hvalid | ⟨hpending, -⟩
        · rw [hsame, hold]
        · rw [hold, not_valid_of_terminal hterm] at hvalid
          cases hvalid
        · rw [← hold, List.mem_singleton.1 hpending] at hterm
          cases hterm
  exact ⟨h.fresh.trans_le hnext, hcom, hvis⟩

theorem HasStatus.step {mutationId : ℕ} {status : MutationStatus}
    (h : HasStatus w mutationId status) (hterm : status.isTerminal = true)
    (hi : Custody options [.pending] w) {event : RuntimeEvent}
    (hser : SerializedEvent [.pending] w event) (hs : runtimeStep options w event = some w') :
    HasStatus w' mutationId status := by
  rcases step_cases hs with ⟨c, hs⟩ | ⟨fails, c, sql, rfl, he⟩ | ⟨-, rfl⟩ |
    ⟨c, nowUs, restore, -, -, rfl⟩
  · have hdb := hs.database
    refine ⟨hdb.nextMutationId ▸ h.fresh, ?_, ?_⟩
    · rw [hdb.conn]
      exact h.committed
    · rw [hdb.conn]
      exact h.visible
  · exact h.executes hterm hi (hser fails c sql w'.queue rfl he.queue) he
  · exact ⟨h.fresh, h.committed, h.committed⟩
  · have hdb := boot_database options c w nowUs restore
    refine ⟨hdb.nextMutationId ▸ h.fresh, ?_, ?_⟩
    · rw [hdb.conn]
      exact h.committed
    · rw [hdb.conn]
      exact h.committed

theorem StatusInv.hasStatus (h : StatusInv options w) {row : JournalRow}
    (hrow : row ∈ w.conn.committed.journal) (hterm : row.status.isTerminal = true) :
    HasStatus w row.mutationId row.status :=
  ⟨h.custody.fresh.1 row hrow, fun row' hrow' hid => by rw [eq_of_mutationId hrow hrow' hid],
    h.settled row hrow hterm⟩

theorem StatusInv.step (h : StatusInv options w) {event : RuntimeEvent}
    (hser : SerializedEvent [.pending] w event) (hs : runtimeStep options w event = some w') :
    StatusInv options w' := by
  refine ⟨h.custody.step (by simp) (by decide) hser hs, ?_⟩
  -- a row that was committed keeps its status, and a new state of the store has one copy of it
  have hold : w'.conn.committed = w.conn.committed → ∀ row ∈ w'.conn.committed.journal,
      row.status.isTerminal = true → ∀ row' ∈ w'.conn.visible.journal,
        row'.mutationId = row.mutationId → row'.status = row.status := by
    intro hcom row hrow hterm
    rw [hcom] at hrow
    exact ((h.hasStatus hrow hterm).step hterm h.custody hser hs).visible
  have hnew : w'.conn.committed = w'.conn.visible → ∀ row ∈ w'.conn.committed.journal,
      row.status.isTerminal = true → ∀ row' ∈ w'.conn.visible.journal,
        row'.mutationId = row.mutationId → row'.status = row.status := by
    intro heq row hrow _ row' hrow' hid
    rw [heq] at hrow
    rw [eq_of_mutationId hrow hrow' hid]
  rcases step_cases hs with ⟨c, hs⟩ | ⟨fails, c, sql, -, he⟩ | ⟨-, rfl⟩ |
    ⟨c, nowUs, restore, -, -, rfl⟩
  · exact hold (by rw [hs.database.conn])
  · cases he.effect with
    | nothing _ hcom => exact hold hcom
    | commit _ hc => exact hnew (by rw [hc]; rfl)
    | rollback _ hc => exact hnew (by rw [hc]; rfl)
    | alone _ _ _ hc => exact hnew (by rw [hc]; rfl)
    | inBlock _ _ _ hc => exact hold (by rw [hc])
  · exact hnew rfl
  · refine hnew ?_
    rw [(boot_database _ _ w _ _).conn]
    rfl

theorem StatusInv.initial (store : LocalStore) : StatusInv options (Runtime.initial store) :=
  ⟨Custody.initial store, fun _ hrow _ _ hrow' hid => by rw [eq_of_mutationId hrow hrow' hid]⟩

end Runtime

/-- In a run whose statements leave the rows of every sender to it, every step takes every row
from a status to one that the table of transitions allows, unless it ends the process and with
it an open block; and a row that is committed in a terminal status has that status in every
later committed store that has the row. -/
theorem statuses_follow_transitions {options : RuntimeOptions} {store : LocalStore}
    {events later : List RuntimeEvent} {event : RuntimeEvent} {w w' v : Runtime}
    (hser : Meets (runtimeStep options) (Runtime.SerializedEvent [.pending]) (.initial store)
      (events ++ event :: later))
    (hrun : run (runtimeStep options) (.initial store) events = some w)
    (hstep : runtimeStep options w event = some w')
    (hlater : run (runtimeStep options) w' later = some v) :
    (event.endsProcess = false → w.conn.visible.Follows w'.conn.visible) ∧
    (event.endsProcess = true →
      w'.conn.committed = w.conn.committed ∧ w'.conn.visible = w.conn.committed) ∧
    ∀ row ∈ w'.conn.committed.journal, row.status.isTerminal = true →
      ∀ row' ∈ v.conn.committed.journal, row'.mutationId = row.mutationId →
        row'.status = row.status := by
  have hmeets := meets_append hser hrun
  have hinv : Runtime.StatusInv options w :=
    invariant (fun _ _ _ h hser => h.step hser) (Runtime.StatusInv.initial store)
      (meets_of_append hser) hrun
  have hinv' : Runtime.StatusInv options w' := hinv.step hmeets.1 hstep
  refine ⟨fun hends => ?_, fun hends => ?_, fun row hrow hterm => ?_⟩
  · rcases Runtime.step_cases hstep with ⟨c, hs⟩ | ⟨fails, c, sql, rfl, he⟩ | ⟨rfl, -⟩ |
      ⟨c, nowUs, restore, rfl, -, -⟩
    · rw [hs.database.conn]
      exact Runtime.follows_refl _
    · exact hinv.custody.executes_follows (hmeets.1 fails c sql w'.queue rfl he.queue) he
    · cases hends
    · cases hends
  · cases event with
    | crash =>
      obtain rfl := Option.some.inj hstep
      exact ⟨rfl, rfl⟩
    | boot c nowUs restore =>
      simp only [runtimeStep] at hstep
      split at hstep
      · cases hstep
      · obtain rfl := Option.some.inj hstep
        rw [(Runtime.boot_database _ _ w _ _).conn]
        exact ⟨rfl, rfl⟩
    | _ => cases hends
  · have hkeeps : ∀ u event u',
        Runtime.StatusInv options u ∧ Runtime.HasStatus u row.mutationId row.status →
        Runtime.SerializedEvent [.pending] u event → runtimeStep options u event = some u' →
        Runtime.StatusInv options u' ∧ Runtime.HasStatus u' row.mutationId row.status :=
      fun _ _ _ h hser hs => ⟨h.1.step hser hs, h.2.step hterm h.1.custody hser hs⟩
    have hlast := invariant hkeeps ⟨hinv', hinv'.hasStatus hrow hterm⟩ (hmeets.2 w' hstep) hlater
    exact hlast.2.committed

/-! ### Three runs -/

theorem Runtime.serializedEvent_of_unheld {w : Runtime} {event : RuntimeEvent}
    (hcalls : ∀ c call, w.calls c = some call → call.held = [])
    (hqueue : ∀ entry ∈ w.queue, entry.2.selects w.conn.visible = [] ∧
      ∀ fails, ¬ w.RollsBack fails entry.2) : w.SerializedEvent [.pending] event := by
  intro fails c sql queue _ hq
  have hentry := hqueue (c, sql) (hq ▸ List.mem_cons_self)
  refine ⟨?_, ?_, fun hr => absurd hr (hentry.2 fails)⟩
  · rw [hentry.1]
    exact fun _ hrow => absurd hrow List.not_mem_nil
  · rintro _ _ d held row ⟨call, hc, hmem⟩
    rw [hcalls d call hc] at hmem
    exact absurd hmem List.not_mem_nil

def oneJournal : RuntimeOptions := ⟨[0], 5, 10⟩

def oneRow (status : MutationStatus) (writeUnit : Option ℕ) : LocalStore :=
  ⟨[⟨0, 0, 7, 0, status, none, writeUnit, 0, none, 1⟩], some false, Keyed.singleton _⟩

/-- A restore boot takes a row that was being sent to pending first. -/
theorem statuses_follow_transitions_restore :
    ∃ w w', run (runtimeStep oneJournal) (.initial (oneRow .sending none)) [.boot 0 5 true] = some w ∧
      runtimeStep oneJournal w (.execute false) = some w' ∧
      w'.conn.visible.journal.map JournalRow.status = [.pending] ∧
      w.conn.visible.Follows w'.conn.visible := by
  have hser : Meets (runtimeStep oneJournal) (Runtime.SerializedEvent [.pending])
      (.initial (oneRow .sending none)) ([.boot 0 5 true] ++ .execute false :: []) := by
    refine ⟨(fun _ _ _ _ he => nomatch he), fun w h => ?_⟩
    obtain rfl := Option.some.inj h
    refine ⟨Runtime.serializedEvent_of_unheld ?_ ?_, fun _ _ => trivial⟩
    · intro c call hc
      obtain ⟨-, rfl⟩ | ⟨-, hc⟩ := update_eq_some.1 hc
      · rfl
      · cases hc
    · intro entry he
      obtain rfl := List.mem_singleton.1 he
      exact ⟨rfl, fun _ => id⟩
  exact ⟨_, _, rfl, rfl, rfl, (statuses_follow_transitions hser rfl rfl rfl).1 rfl⟩

def bootEvents : List RuntimeEvent := [.boot 0 0 false, .execute false, .resume 0 0]

/-- A flush up to the UPDATE that marks a `failed` row. -/
def flushOfFailed : List RuntimeEvent :=
  bootEvents ++ [.call 1 (.flush [0]) 0, .resume 1 0, .execute false, .resume 1 0, .resume 1 0,
    .execute false, .resume 1 0]

/-- Two calls of `flushUnit` read the row of a unit; the first sends it and settles it, and the
second has its marking UPDATE to run. -/
def twoFlushUnits : List RuntimeEvent :=
  bootEvents ++ [.call 1 (.flushUnit 9) 0, .call 2 (.flushUnit 9) 0, .execute false, .execute false,
    .resume 1 0, .resume 2 0, .resume 1 0, .execute false, .resume 1 0, .execute false, .resume 1 0,
    .resume 1 0, .send 1, .respond 1 0 (.acks [⟨0, .acked, none⟩]) id, .execute false, .resume 1 0,
    .resume 2 0]

/-- A change of status that a step makes to the one row of a store. -/
theorem not_follows_of_statuses {store store' : LocalStore} {row row' : JournalRow}
    (h : store.journal = [row]) (h' : store'.journal = [row'])
    (hid : row'.mutationId = row.mutationId) (hne : row'.status ≠ row.status)
    (hvalid : isValidMutationTransition row.status row'.status = false) : ¬ store.Follows store' := by
  intro hfollows
  rcases hfollows row (h ▸ List.mem_cons_self) row' (h' ▸ List.mem_cons_self) hid with heq | ht
  · exact hne heq
  · rw [hvalid] at ht
    cases ht

/-- The flush takes the row from `failed` to `sending`, and the second `flushUnit` from `acked`
to `sending`. -/
theorem statuses_leave_transitions :
    (∃ w w', run (runtimeStep oneJournal) (.initial (oneRow .failed none)) flushOfFailed = some w ∧
      runtimeStep oneJournal w (.execute false) = some w' ∧
      ¬ w.conn.visible.Follows w'.conn.visible) ∧
    ∃ w w', run (runtimeStep oneJournal) (.initial (oneRow .pending (some 9))) twoFlushUnits = some w ∧
      runtimeStep oneJournal w (.execute false) = some w' ∧
      w.conn.committed.journal.map JournalRow.status = [.acked] ∧
      ¬ w.conn.visible.Follows w'.conn.visible :=
  ⟨⟨_, _, rfl, rfl, not_follows_of_statuses rfl rfl rfl (by decide) rfl⟩,
    ⟨_, _, rfl, rfl, rfl, not_follows_of_statuses rfl rfl rfl (by decide) rfl⟩⟩

end Mutation
