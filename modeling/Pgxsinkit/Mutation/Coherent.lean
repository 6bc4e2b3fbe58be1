/-
The queue and the calls of the mutation runtime fit together.

A statement waits in the queue for the call that awaits it, and no call has two of them
there, so that the reply a call continues from is that to its own statement.
-/
import Pgxsinkit.Mutation.Steps
import Pgxsinkit.Lib.Groups

namespace Mutation

namespace Runtime

variable {options : RuntimeOptions} {w w' : Runtime} {c : ℕ}

/-- A statement waits in the queue for the call that awaits it, one for a call. -/
structure Coherent (options : RuntimeOptions) (w : Runtime) : Prop where
  nodup : (w.queue.map Prod.fst).Nodup
  awaited : ∀ entry ∈ w.queue, ∃ program, w.calls entry.1 = some ⟨program, none⟩ ∧
    program.Awaits entry.2
  fits : ∀ c call, w.calls c = some call → call.program.Fits options

namespace Coherent

theorem not_queued (h : Coherent options w) (hf : w.Free c) (sql : Sql) : (c, sql) ∉ w.queue := by
  intro hq
  obtain ⟨program, hc, ha⟩ := h.awaited _ hq
  exact hf program hc sql ha

/-- A free call continues without a statement. -/
theorem put (h : Coherent options w) (hf : w.Free c) {program : Program}
    (hq : w'.queue = w.queue) (hc : w'.calls = Function.update w.calls c (some ⟨program, none⟩))
    (hs : program.Fits options) : Coherent options w' := by
  constructor
  · rw [hq]
    exact h.nodup
  · intro entry he
    rw [hq] at he
    have hne : entry.1 ≠ c := by
      rintro rfl
      exact h.not_queued hf entry.2 he
    rw [hc, Function.update_of_ne hne]
    exact h.awaited entry he
  · intro d call hd
    rw [hc, Runs.update_eq_some] at hd
    rcases hd with ⟨-, rfl⟩ | ⟨-, hd⟩
    · exact hs
    · exact h.fits d call hd

theorem issue (h : Coherent options w) (hf : w.Free c) {program : Program} {sql : Sql}
    (ha : program.Awaits sql) (hs : program.Fits options)
    (hq : w'.queue = w.queue ++ [(c, sql)])
    (hc : w'.calls = Function.update w.calls c (some ⟨program, none⟩)) : Coherent options w' := by
  have hput : Coherent options (w.put c program) := h.put hf rfl rfl hs
  constructor
  · rw [hq, List.map_append]
    refine List.nodup_append.2 ⟨h.nodup, List.nodup_singleton c, ?_⟩
    intro d hd e he
    obtain ⟨entry, hentry, rfl⟩ := List.mem_map.1 hd
    obtain rfl : e = c := List.mem_singleton.1 he
    rintro rfl
    exact h.not_queued hf entry.2 hentry
  · intro entry he
    rw [hq, List.mem_append, List.mem_singleton] at he
    rcases he with he | rfl
    · rw [hc]
      exact hput.awaited entry he
    · exact ⟨program, by rw [hc, Function.update_self], ha⟩
  · rw [hc]
    exact hput.fits

theorem finish (h : Coherent options w) (hf : w.Free c) (hq : w'.queue = w.queue)
    (hc : w'.calls = Function.update w.calls c none) : Coherent options w' := by
  constructor
  · rw [hq]
    exact h.nodup
  · intro entry he
    rw [hq] at he
    have hne : entry.1 ≠ c := by
      rintro rfl
      exact h.not_queued hf entry.2 he
    rw [hc, Function.update_of_ne hne]
    exact h.awaited entry he
  · intro d call hd
    rw [hc] at hd
    by_cases hdc : d = c
    · rw [hdc, Function.update_self] at hd
      cases hd
    · rw [Function.update_of_ne hdc] at hd
      exact h.fits d call hd

theorem same (h : Coherent options w) (hq : w'.queue = w.queue) (hc : w'.calls = w.calls) :
    Coherent options w' := by
  constructor
  · rw [hq]
    exact h.nodup
  · rw [hq, hc]
    exact h.awaited
  · rw [hc]
    exact h.fits

theorem awaits_readStatement (options : RuntimeOptions) (nowUs : ℕ) (route : Route) :
    (Program.sender route .reading).Awaits (readStatement options nowUs route) := by
  cases route with
  | batch tables => exact ⟨nowUs, options.flushBatchSize, rfl⟩
  | unit unitId => rfl

theorem awaits_marking (route : Route) (rows : List JournalRow) (table : ℕ) (todo : List ℕ) :
    (Program.sender route (.marking rows table todo false)).Awaits
      (markSendingUpdate rows table) := by
  cases route <;> rfl

theorem awaits_marker (route : Route) (rows : List JournalRow) (table : ℕ) (todo : List ℕ) :
    (Program.sender route (.marking rows table todo true)).Awaits
      (.statement (.writeRecoveryRequired true)) := by
  cases route <;> rfl

theorem awaits_settling (route : Route) (rows : List JournalRow)
    (updates : List MutationStatusUpdate) (table : ℕ) (todo : List ℕ) :
    (Program.sender route (.settling rows updates table todo)).Awaits
      (.statement (.statusUpdates table (settleUpdates updates rows table))) := by
  cases route <;> rfl

theorem awaits_script (boot : Option Bool) (sql : Sql) (todo : List Sql) (opened : Bool) :
    (Program.script boot (sql :: todo) opened).Awaits sql := rfl

theorem awaits_settle :
    Program.settle.Awaits (.statement .clearRecoveryMarkerIfSettled) := rfl

theorem awaits_bootReading : Program.bootReading.Awaits .readMarker := rfl

theorem allowed_recoverSending {nowUs : ℕ} {boot : Option Bool} {sql : Sql}
    (h : sql ∈ recoverSending options nowUs) : sql.Allowed options boot := by
  obtain ⟨table, -, rfl⟩ := List.mem_map.1 h
  trivial

theorem allowed_quarantineRecovered {boot : Option Bool} {sql : Sql}
    (h : sql ∈ quarantineRecovered options) : sql.Allowed options boot := by
  obtain ⟨table, -, rfl⟩ := List.mem_map.1 h
  trivial

theorem nodup_tablesOf (rows : List JournalRow) : (tablesOf rows).Nodup :=
  Groups.nodup_eraseDups _

theorem fits_outcomes {route : Route} {rows : List JournalRow} {retryAtUs : ℕ → ℕ}
    {response : WriteResponse} {table : ℕ} {todo : List ℕ} (ht : (table :: todo).Nodup) :
    (Program.sender route (.settling rows
      (rows.map (outcomeUpdate options retryAtUs route response)) table todo)).Fits options := by
  refine ⟨ht, fun update hu => ?_⟩
  obtain ⟨row, -, rfl⟩ := List.mem_map.1 hu
  cases route with
  | batch tables => exact isValid_batchOutcome ..
  | unit unitId => exact isValid_unitOutcome ..

theorem callStep (h : Coherent options w) (hs : CallStep options w c w') :
    Coherent options w' := by
  cases hs with
  | beginFlush hb hc => exact h.put (free_of_unknown hc) rfl rfl trivial
  | beginUnit hb hc =>
    exact h.issue (free_of_unknown hc) (awaits_readStatement options 0 _) trivial
      rfl rfl
  | beginScript hb hc hs => exact h.issue (free_of_unknown hc) (awaits_script _ _ _ _) hs rfl rfl
  | beginEmpty hb hc => exact h.finish (free_of_unknown hc) rfl rfl
  | beginSettle hb hc hs => exact h.issue (free_of_unknown hc) awaits_settle trivial rfl rfl
  | skipSettle => exact h
  | startFlush hc hq =>
    exact h.issue (free_of_quiet hc (not_awaits_waiting _)) (awaits_readStatement _ _ _) trivial
      rfl rfl
  | rowsRead hc hok => exact h.put (free_of_replied hc) rfl rfl (nodup_tablesOf _)
  | markDirty hc hd =>
    refine h.issue (free_of_quiet hc (not_awaits_entering _ _ _)) (awaits_marking _ _ _ _) ?_
      rfl rfl
    exact h.fits c _ hc
  | markClean hc hd =>
    refine h.issue (free_of_quiet hc (not_awaits_entering _ _ _)) (awaits_marker _ _ _ _) ?_
      rfl rfl
    exact h.fits c _ hc
  | markerWritten hc hok =>
    refine h.issue (free_of_replied hc) (awaits_marking _ _ _ _) ?_ rfl rfl
    exact h.fits c _ hc
  | marked hc hok =>
    exact h.put (free_of_replied hc) rfl rfl (List.nodup_cons.1 (h.fits c _ hc)).2
  | markFails hc hok => exact h.finish (free_of_replied hc) rfl rfl
  | allMarked hc => exact h.put (free_of_quiet hc (not_awaits_entering _ _ _)) rfl rfl trivial
  | sends hc => exact h.put (free_of_quiet hc (not_awaits_authorizing _ _)) rfl rfl trivial
  | resends hc => exact h.same rfl rfl
  | responded hc hs ht =>
    have hf : w.Free c := by
      rcases hs with rfl | rfl
      · exact free_of_quiet hc (not_awaits_authorizing _ _)
      · exact free_of_quiet hc (not_awaits_inFlight _ _)
    exact h.issue hf (awaits_settling _ _ _ _ _)
      (fits_outcomes (ht ▸ nodup_tablesOf _)) rfl rfl
  | settleNext hc hok =>
    refine h.issue (free_of_replied hc) (awaits_settling _ _ _ _ _) ?_ rfl rfl
    obtain ⟨hnodup, hvalid⟩ := h.fits c _ hc
    exact ⟨(List.nodup_cons.1 hnodup).2, hvalid⟩
  | nextPass hc hf hm hw => exact h.issue hf (awaits_readStatement _ _ _) trivial rfl rfl
  | senderEnds hc hf hm => exact h.finish hf rfl rfl
  | scriptNext hc hok =>
    refine h.issue (free_of_replied hc) (awaits_script _ _ _ _) (fun sql hsql => ?_) rfl rfl
    exact h.fits c _ hc sql (List.mem_cons_of_mem _ hsql)
  | @scriptDone boot todo opened reply hc hok ht hr =>
    unfold finishScript
    cases boot with
    | none => exact h.finish (free_of_replied hc) rfl rfl
    | some restore => cases restore <;> exact h.finish (free_of_replied hc) rfl rfl
  | scriptRollsBack hc hok =>
    refine h.issue (free_of_replied hc) (awaits_script _ _ _ _) (fun sql hsql => ?_) rfl rfl
    obtain rfl := List.mem_singleton.1 hsql
    trivial
  | scriptEnds hc => exact h.finish (free_of_replied hc) rfl rfl
  | bootSkips hc hok hm => exact h.finish (free_of_replied hc) rfl rfl
  | bootInitializes hc hs =>
    refine h.issue (free_of_replied hc) (awaits_script _ _ _ _) (fun sql hsql => ?_) rfl rfl
    rw [← hs, List.mem_append, List.mem_singleton] at hsql
    rcases hsql with hsql | rfl
    · exact allowed_recoverSending hsql
    · exact ⟨rfl, rfl⟩
  | bootRecovers hc =>
    refine h.issue (free_of_replied hc) (awaits_script _ _ _ _) (fun sql hsql => ?_) rfl rfl
    simp only [List.mem_cons, List.mem_append, List.not_mem_nil, or_false] at hsql
    rcases hsql with rfl | (hsql | rfl) | rfl
    · trivial
    · exact allowed_recoverSending hsql
    · exact Option.some_ne_none _
    · trivial
  | bootFails hc => exact h.finish (free_of_replied hc) rfl rfl
  | settleEnds hc => exact h.finish (free_of_replied hc) rfl rfl

theorem executes (h : Coherent options w) {fails : Bool} {sql : Sql}
    (he : Executes w fails c sql w') : Coherent options w' := by
  have hnd := h.nodup
  rw [he.queue, List.map_cons, List.nodup_cons] at hnd
  constructor
  · exact hnd.2
  · intro entry hentry
    have hne : entry.1 ≠ c := fun heq => hnd.1 (List.mem_map.2 ⟨entry, hentry, heq⟩)
    rw [he.calls, Function.update_of_ne hne]
    exact h.awaited entry (he.queue ▸ List.mem_cons_of_mem _ hentry)
  · intro d call hd
    rw [he.calls] at hd
    by_cases hdc : d = c
    · subst hdc
      rw [Function.update_self] at hd
      obtain ⟨call', hcall, rfl⟩ := Option.map_eq_some_iff.1 hd
      exact h.fits d call' hcall
    · rw [Function.update_of_ne hdc] at hd
      exact h.fits d call hd

theorem crashed (w : Runtime) : Coherent options w.crashed :=
  ⟨List.nodup_nil, fun _ he => absurd he List.not_mem_nil, fun _ _ hc => nomatch hc⟩

theorem boot {nowUs : ℕ} {restore : Bool} (w : Runtime) :
    Coherent options (w.crashed.bootCall options c nowUs restore) := by
  have hf : w.crashed.Free c := free_of_unknown rfl
  unfold bootCall
  split
  · cases hs : recoverSending options nowUs ++ quarantineRecovered options ++
      [.statement .clearRecoveryMarkerIfSettled] with
    | nil => simp at hs
    | cons sql todo =>
      refine (crashed w).issue hf (awaits_script _ _ _ _) (fun sql hsql => ?_) rfl rfl
      rw [← hs, List.mem_append, List.mem_append, List.mem_singleton] at hsql
      rcases hsql with (hsql | hsql) | rfl
      · exact allowed_recoverSending hsql
      · exact allowed_quarantineRecovered hsql
      · exact Option.some_ne_none _
  · exact (crashed w).issue hf awaits_bootReading trivial rfl rfl

/-- Every step keeps the queue and the calls together. -/
theorem step (h : Coherent options w) {event : RuntimeEvent}
    (hs : runtimeStep options w event = some w') : Coherent options w' := by
  rcases step_cases hs with ⟨c, hs⟩ | ⟨fails, c, sql, -, he⟩ | ⟨-, rfl⟩ |
    ⟨c, nowUs, restore, -, -, rfl⟩
  · exact h.callStep hs
  · exact h.executes he
  · exact crashed w
  · exact boot w

theorem initial (store : LocalStore) : Coherent options (Runtime.initial store) :=
  ⟨List.nodup_nil, fun _ he => absurd he List.not_mem_nil, fun _ _ hc => nomatch hc⟩

end Coherent

end Runtime

end Mutation
