/-
The stream of one scope of a server table.

The server writes rows and the stream of a scope carries an upsert when a row enters or
changes in the scope and a delete by primary key when it leaves.  A stream may start
anywhere in the history, with the rows the scope held there.  `IsScopeStream.netRow` says
that the changes, applied in order, leave the server's rows of the scope.
-/
import Pgxsinkit.Circuits.FoldSpec

namespace Circuits

variable {S V : Type} [LinearOrder S]

/-- One write to the server's table: the new row of a key, or its deletion. -/
structure ServerWrite (S V : Type) where
  key : S
  row : Option (OrdMap S V)

/-- The server's row of a key after a history. -/
def serverRow (history : List (ServerWrite S V)) (key : S) : Option (OrdMap S V) :=
  (history.filter fun write => write.key = key).getLast?.bind ServerWrite.row

/-- What the stream of a scope carries of a write, `old` being the row before it. -/
def scopeChange (inScope : OrdMap S V → Bool) (old : Option (OrdMap S V))
    (write : ServerWrite S V) : List (SyncChange S V) :=
  match write.row.filter inScope with
  | some value => [⟨write.key, value, .upsert⟩]
  | none => if (old.filter inScope).isSome then [⟨write.key, .empty, .delete⟩] else []

/-- The changes of the scope over the writes that follow the history `before`. -/
def scopeFeed (inScope : OrdMap S V → Bool) :
    List (ServerWrite S V) → List (ServerWrite S V) → List (SyncChange S V)
  | _, [] => []
  | before, write :: writes =>
    scopeChange inScope (serverRow before write.key) write ++
      scopeFeed inScope (before ++ [write]) writes

/-- The rows of the scope after the history, one upsert each, in any order. -/
structure IsSnapshot (inScope : OrdMap S V → Bool) (before : List (ServerWrite S V))
    (snapshot : List (SyncChange S V)) : Prop where
  nodup : (snapshot.map SyncChange.key).Nodup
  mem_iff : ∀ change, change ∈ snapshot ↔ change.operation = .upsert ∧
    serverRow before change.key = some change.value ∧ inScope change.value = true

/-- The stream of a scope that starts after `start` writes of the history and has got as
far as `stop` of them. -/
structure IsScopeStream (inScope : OrdMap S V → Bool) (history : List (ServerWrite S V))
    (start stop : Nat) (changes : List (SyncChange S V)) : Prop where
  le_stop : start ≤ stop
  changes_eq : ∃ snapshot, IsSnapshot inScope (history.take start) snapshot ∧
    changes = snapshot ++
      scopeFeed inScope (history.take start) ((history.take stop).drop start)

/-- The rows the server writes are full rows of the columns `cols`. -/
def FullHistory (cols : List S) (history : List (ServerWrite S V)) : Prop :=
  ∀ write ∈ history, ∀ value, write.row = some value → value.keys.Perm cols

section

variable {inScope : OrdMap S V → Bool} {history before writes : List (ServerWrite S V)}
  {changes : List (SyncChange S V)} {target : ApplyTarget S V} {cols : List S}

theorem serverRow_append (write : ServerWrite S V) (key : S) :
    serverRow (before ++ [write]) key =
      if write.key = key then write.row else serverRow before key := by
  rw [serverRow, serverRow, List.filter_append]
  by_cases h : write.key = key <;> simp [h]

theorem exists_write_of_serverRow {key : S} {value : OrdMap S V}
    (h : serverRow history key = some value) : ∃ write ∈ history, write.row = some value := by
  rw [serverRow, Option.bind_eq_some_iff] at h
  obtain ⟨write, hlast, hrow⟩ := h
  exact ⟨write, (List.mem_filter.1 (List.mem_of_getLast? hlast)).1, hrow⟩

/-- The changes leave under every key the server's row, as far as it is in the scope. -/
def Shows (target : ApplyTarget S V) (inScope : OrdMap S V → Bool)
    (history : List (ServerWrite S V)) (changes : List (SyncChange S V)) : Prop :=
  ∀ key, (netRow target key changes).getD none =
    ((serverRow history key).filter inScope).map target.insertedRow

theorem IsSnapshot.shows (h : IsSnapshot inScope before changes) :
    Shows target inScope before changes := by
  intro key
  cases hlast : lastChange key changes with
  | none =>
    rw [netRow, hlast]
    -- no change of the key, so no row of the key in the scope
    cases hrow : (serverRow before key).filter inScope with
    | none => rfl
    | some value =>
      exfalso
      rw [Option.filter_eq_some_iff] at hrow
      exact lastChange_eq_none.1 hlast ⟨key, value, .upsert⟩
        ((h.mem_iff _).2 ⟨rfl, hrow.1, hrow.2⟩) rfl
  | some change =>
    obtain ⟨hmem, rfl⟩ := mem_of_lastChange hlast
    obtain ⟨hop, hrow, hin⟩ := (h.mem_iff change).1 hmem
    rw [netRow, hlast, hrow, Option.filter_some, if_pos hin]
    simp [rowOf, hop]

/-- One write: what its change adds to the stream keeps the stream at the server's rows. -/
theorem Shows.scopeChange (h : Shows target inScope before changes) (write : ServerWrite S V) :
    Shows target inScope (before ++ [write])
      (changes ++ scopeChange inScope (serverRow before write.key) write) := by
  intro key
  rw [serverRow_append, netRow_append]
  by_cases hkey : write.key = key
  · subst hkey
    rw [if_pos rfl, Circuits.scopeChange]
    cases hnew : write.row.filter inScope with
    | some value => simp [netRow_singleton, rowOf]
    | none =>
      cases hold : (serverRow before write.key).filter inScope with
      | some value => simp [netRow_singleton, rowOf]
      | none =>
        have := h write.key
        rw [hold] at this
        simpa using this
  · rw [if_neg hkey, ← h key, Circuits.scopeChange]
    cases write.row.filter inScope with
    | some value => simp [netRow_singleton, hkey]
    | none =>
      dsimp only
      split
      · simp [netRow_singleton, hkey]
      · simp

theorem Shows.scopeFeed (h : Shows target inScope before changes) :
    Shows target inScope (before ++ writes) (changes ++ scopeFeed inScope before writes) := by
  induction writes generalizing before changes with
  | nil =>
    rw [List.append_nil, Circuits.scopeFeed, List.append_nil]
    exact h
  | cons write writes ih =>
    have hrest := ih (h.scopeChange write)
    rw [List.append_assoc, List.singleton_append, List.append_assoc] at hrest
    exact hrest

/-- A stream that has got as far as `stop` shows the server's rows there. -/
theorem IsScopeStream.shows {start stop : Nat}
    (h : IsScopeStream inScope history start stop changes) :
    Shows target inScope (history.take stop) changes := by
  obtain ⟨snapshot, hsnapshot, rfl⟩ := h.changes_eq
  have htake : history.take start ++ (history.take stop).drop start = history.take stop := by
    have := List.take_append_drop start (history.take stop)
    rwa [List.take_take, Nat.min_eq_left h.le_stop] at this
  have hshows : Shows target inScope (history.take start) snapshot := hsnapshot.shows
  have hfeed : Shows target inScope (history.take start ++ (history.take stop).drop start) _ :=
    hshows.scopeFeed
  rwa [htake] at hfeed

theorem upsert_of_mem_scopeFeed {change : SyncChange S V}
    (h : change ∈ scopeFeed inScope before writes) (hop : change.operation = .upsert) :
    inScope change.value = true ∧ ∃ write ∈ writes, write.row = some change.value := by
  induction writes generalizing before with
  | nil => cases h
  | cons write writes ih =>
    rcases List.mem_append.1 h with h | h
    · rw [scopeChange] at h
      split at h
      · rename_i value hvalue
        rw [Option.filter_eq_some_iff] at hvalue
        obtain rfl := List.mem_singleton.1 h
        exact ⟨hvalue.2, write, List.mem_cons_self, hvalue.1⟩
      · split at h
        · obtain rfl := List.mem_singleton.1 h
          cases hop
        · cases h
    · obtain ⟨hin, w, hw, hrow⟩ := ih h
      exact ⟨hin, w, List.mem_cons_of_mem _ hw, hrow⟩

/-- The upserts of a stream are rows of the history that lie in the scope. -/
theorem IsScopeStream.upsert {start stop : Nat}
    (h : IsScopeStream inScope history start stop changes) {change : SyncChange S V}
    (hmem : change ∈ changes) (hop : change.operation = .upsert) :
    inScope change.value = true ∧ ∃ write ∈ history, write.row = some change.value := by
  obtain ⟨snapshot, hsnapshot, rfl⟩ := h.changes_eq
  rcases List.mem_append.1 hmem with hmem | hmem
  · obtain ⟨-, hrow, hin⟩ := (hsnapshot.mem_iff change).1 hmem
    obtain ⟨write, hwrite, hvalue⟩ := exists_write_of_serverRow hrow
    exact ⟨hin, write, (List.take_sublist _ _).subset hwrite, hvalue⟩
  · obtain ⟨hin, write, hwrite, hvalue⟩ := upsert_of_mem_scopeFeed hmem hop
    exact ⟨hin, write, ((List.drop_sublist _ _).trans (List.take_sublist _ _)).subset hwrite,
      hvalue⟩

theorem IsScopeStream.fullRow {start stop : Nat}
    (h : IsScopeStream inScope history start stop changes) (hfull : FullHistory cols history)
    {change : SyncChange S V} (hmem : change ∈ changes) : FullRow cols change := by
  intro hop
  obtain ⟨-, write, hwrite, hvalue⟩ := h.upsert hmem hop
  exact hfull write hwrite change.value hvalue

/-- A row that a part of the stream leaves lies in the scope. -/
theorem IsScopeStream.inScope_of_netRow {start stop n : Nat}
    (h : IsScopeStream inScope history start stop changes) {key : S} {row : Row S V}
    (hrow : (netRow target key (changes.take n)).getD none = some row) :
    ∃ value, row = target.insertedRow value ∧ inScope value = true := by
  rw [netRow] at hrow
  cases hlast : lastChange key (changes.take n) with
  | none =>
    rw [hlast] at hrow
    cases hrow
  | some change =>
    rw [hlast, Option.map_some, Option.getD_some, rowOf] at hrow
    split at hrow
    · rename_i hop
      have hmem := (List.take_sublist _ _).subset (mem_of_lastChange hlast).1
      exact ⟨change.value, (Option.some.inj hrow).symm, (h.upsert hmem hop).1⟩
    · cases hrow

end

end Circuits
