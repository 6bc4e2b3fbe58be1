/-
What the client of an incremental query hands out.

Between refreshes the maps hold the current result: every row under its key, and under the key of
the row before it (`Shows`).  A delete takes away the link to the deleted row, though an insert
of the same batch may have put its own row there; a refresh that does neither keeps the maps
(`Exact.refresh`), and following the links gives the rows in order (`follow_eq`).
-/
import Pgxsinkit.LiveQueries.Incremental

namespace LiveQueries

variable {C K V J : Type}

/-! ### Rows and the rows before them -/

theorem map_snd_lag (before : Option K) (rows : List (ResultRow C K V)) :
    (lag before rows).map Prod.snd = rows := by
  induction rows generalizing before with
  | nil => rfl
  | cons row rows ih => rw [lag, List.map_cons, ih]

/-- The keys of a result. -/
def keysOf (rows : List (ResultRow C K V)) : List K := rows.map ResultRow.key

theorem map_key_lag (before : Option K) (rows : List (ResultRow C K V)) :
    (lag before rows).map (fun e => e.2.key) = keysOf rows := by
  have hmap := congrArg (List.map ResultRow.key) (map_snd_lag before rows)
  rwa [List.map_map] at hmap

/-- No two rows have one row before them. -/
theorem nodup_fst_lag {before : Option K} {rows : List (ResultRow C K V)}
    (hnodup : (keysOf rows).Nodup) (hbefore : ∀ key ∈ keysOf rows, before ≠ some key) :
    ((lag before rows).map Prod.fst).Nodup := by
  induction rows generalizing before with
  | nil => exact List.nodup_nil
  | cons row rows ih =>
    rw [keysOf, List.map_cons, List.nodup_cons] at hnodup
    rw [lag, List.map_cons, List.nodup_cons]
    have hmem : ∀ {b : Option K} {rows : List (ResultRow C K V)} {x : Option K},
        x ∈ (lag b rows).map Prod.fst → x = b ∨ ∃ key ∈ keysOf rows, x = some key := by
      intro b rows
      induction rows generalizing b with
      | nil => exact fun h => absurd h List.not_mem_nil
      | cons row rows ih =>
        intro x hx
        rw [lag, List.map_cons, List.mem_cons] at hx
        rcases hx with rfl | hx
        · exact .inl rfl
        · rcases ih hx with rfl | ⟨key, hkey, rfl⟩
          · exact .inr ⟨row.key, List.mem_cons_self, rfl⟩
          · exact .inr ⟨key, List.mem_cons_of_mem _ hkey, rfl⟩
    refine ⟨fun hin => ?_, ih hnodup.2 fun key hkey heq => ?_⟩
    · rcases hmem hin with heq | ⟨key, hkey, heq⟩
      · exact hbefore row.key List.mem_cons_self heq
      · exact hbefore key (List.mem_cons_of_mem _ hkey) heq
    · rw [Option.some.inj heq] at hnodup
      exact hnodup.1 hkey

section

variable {rows : List (ResultRow C K V)} (hnodup : (keysOf rows).Nodup)
include hnodup

theorem eq_of_fst_lag {e e' : Option K × ResultRow C K V} (he : e ∈ lag none rows)
    (he' : e' ∈ lag none rows) (h : e.1 = e'.1) : e = e' :=
  List.inj_on_of_nodup_map (nodup_fst_lag hnodup fun key _ => (Option.some_ne_none key).symm) he he' h

theorem eq_of_key_lag {e e' : Option K × ResultRow C K V} (he : e ∈ lag none rows)
    (he' : e' ∈ lag none rows) (h : e.2.key = e'.2.key) : e = e' := by
  rw [← map_key_lag none] at hnodup
  exact List.inj_on_of_nodup_map hnodup he he' h

end

theorem mem_keysOf_lag {rows : List (ResultRow C K V)} {key : K} :
    key ∈ keysOf rows ↔ ∃ e ∈ lag none rows, e.2.key = key := by
  rw [← map_key_lag none, List.mem_map]

/-! ### What the client holds -/

/-- The object of a row. -/
def objectOf (j : K → J) (e : Option K × ResultRow C K V) : RowObject C V J :=
  ⟨some (j e.2.key), some (e.1.map j), fun c => some (e.2.cells c)⟩

/-- The row as it is handed out. -/
def cleanOf (j : K → J) (row : ResultRow C K V) : CleanRow C V J :=
  ⟨some (j row.key), fun c => some (row.cells c)⟩

section

variable [DecidableEq J]

/-- The maps hold a result. -/
structure Shows (j : K → J) (linked : LinkedRows C V J) (rows : List (ResultRow C K V)) : Prop where
  row : ∀ e ∈ lag none rows, linked.rowsMap.get? (j e.2.key) = some (objectOf j e)
  only : ∀ key obj, linked.rowsMap.get? key = some obj → ∃ k ∈ keysOf rows, j k = key
  link : ∀ e ∈ lag none rows, linked.afterMap.get? (e.1.map j) = some (j e.2.key)

theorem shows_empty (j : K → J) : Shows j (LinkedRows.empty : LinkedRows C V J) [] where
  row _ h := nomatch h
  only _ _ h := nomatch h
  link _ h := nomatch h

/-- The links lead through the rows. -/
theorem follow_lag {j : K → J} {linked : LinkedRows C V J} {before : Option K}
    {rows : List (ResultRow C K V)}
    (hrow : ∀ e ∈ lag before rows, linked.rowsMap.get? (j e.2.key) = some (objectOf j e))
    (hlink : ∀ e ∈ lag before rows, linked.afterMap.get? (e.1.map j) = some (j e.2.key)) :
    linked.follow rows.length (before.map j) = rows.map (cleanOf j) := by
  induction rows generalizing before with
  | nil => rfl
  | cons row rows ih =>
    have hrest := ih (fun e he => hrow e (List.mem_cons_of_mem _ he))
      fun e he => hlink e (List.mem_cons_of_mem _ he)
    rw [List.length_cons, LinkedRows.follow, hlink (before, row) List.mem_cons_self]
    simp only [hrow (before, row) List.mem_cons_self, List.map_cons, ← hrest]
    rfl

theorem Shows.size_eq {j : K → J} (hj : Function.Injective j) {linked : LinkedRows C V J}
    {rows : List (ResultRow C K V)} (h : Shows j linked rows) (hnodup : (keysOf rows).Nodup) :
    linked.rowsMap.size = rows.length := by
  have hperm : linked.rowsMap.keys.Perm ((keysOf rows).map j) := by
    rw [List.perm_ext_iff_of_nodup linked.rowsMap.keys_nodup (hnodup.map hj)]
    intro key
    rw [OrdMap.mem_keys_iff, List.mem_map]
    constructor
    · rintro ⟨obj, hobj⟩
      exact h.only key obj hobj
    · rintro ⟨k, hk, rfl⟩
      obtain ⟨e, he, rfl⟩ := mem_keysOf_lag.mp hk
      exact ⟨_, h.row e he⟩
  rw [← OrdMap.length_keys, hperm.length_eq, List.length_map, keysOf, List.length_map]

/-- What the maps of a result hand out. -/
theorem follow_eq {j : K → J} (hj : Function.Injective j) {linked : LinkedRows C V J}
    {rows : List (ResultRow C K V)} (h : Shows j linked rows) (hnodup : (keysOf rows).Nodup) :
    linked.follow linked.rowsMap.size none = rows.map (cleanOf j) := by
  rw [h.size_eq hj hnodup]
  exact follow_lag h.row h.link

/-! ### One change -/

variable [DecidableEq C]

/-- The names of `changedColumns`, one after the other. -/
theorem foldl_assignColumn {key : J} {after : Option J} {cells : C → V}
    {names : List (ColumnName C)} (state : RowObject C V J × OrdMap (Option J) J) :
    (names.foldl (assignColumn key after cells) state).1 =
        ⟨state.1.key, if ColumnName.after ∈ names then some after else state.1.after,
          fun c => if ColumnName.column c ∈ names then some (cells c) else state.1.cells c⟩ ∧
      ∀ p, (names.foldl (assignColumn key after cells) state).2.get? p =
        if ColumnName.after ∈ names ∧ p = after then some key else state.2.get? p := by
  induction names generalizing state with
  | nil =>
    refine ⟨?_, fun p => ?_⟩
    · simp
    · simp
  | cons name names ih =>
    obtain ⟨hobj, hlink⟩ := ih (assignColumn key after cells state name)
    rw [List.foldl_cons, hobj]
    refine ⟨?_, fun p => ?_⟩
    · cases name with
      | column c =>
        simp only [assignColumn, List.mem_cons, reduceCtorEq, false_or, ColumnName.column.injEq]
        congr 1
        funext c'
        by_cases hin : ColumnName.column c' ∈ names
        · simp [hin]
        · by_cases hc : c' = c <;> simp [hin, hc]
      | after =>
        simp [assignColumn]
    · rw [hlink]
      cases name with
      | column c => simp [assignColumn]
      | after =>
        simp only [assignColumn, List.mem_cons, true_or, true_and, OrdMap.get?_set]
        by_cases hp : p = after <;> simp [hp]

/-- What a change leaves under its key. -/
def RowChange.leaves (old : Option (RowObject C V J)) : RowChange C J V → Option (RowObject C V J)
  | .insert key after cells => some ⟨some key, some after, fun c => some (cells c)⟩
  | .delete _ => none
  | .update _ after cells changed =>
    let obj := old.getD .empty
    some ⟨obj.key, if .after ∈ changed then some after else obj.after,
      fun c => if .column c ∈ changed then some (cells c) else obj.cells c⟩

/-- The link a change sets. -/
def RowChange.link : RowChange C J V → Option (Option J × J)
  | .insert key after _ => some (after, key)
  | .delete _ => none
  | .update key after _ changed => if .after ∈ changed then some (after, key) else none

/-- The link a change takes away. -/
def RowChange.clears (old : Option (RowObject C V J)) : RowChange C J V → Option (Option J)
  | .delete _ =>
    match old with
    | some ⟨_, some (some after), _⟩ => some (some after)
    | _ => none
  | _ => none

theorem get?_rowsMap_applyRow (linked : LinkedRows C V J) (change : RowChange C J V) (key : J) :
    (linked.applyRow change).rowsMap.get? key =
      if key = change.key then change.leaves (linked.rowsMap.get? change.key)
      else linked.rowsMap.get? key := by
  cases change with
  | insert k after cells => exact OrdMap.get?_set _ _ _ _
  | delete k => exact OrdMap.get?_delete _ _ _
  | update k after cells changed =>
    show (linked.rowsMap.set k _).get? key = _
    rw [OrdMap.get?_set, (foldl_assignColumn _).1]
    rfl

theorem get?_afterMap_applyRow (linked : LinkedRows C V J) (change : RowChange C J V)
    (p : Option J) :
    (linked.applyRow change).afterMap.get? p =
      match change.link with
      | some (after, key) => if p = after then some key else linked.afterMap.get? p
      | none => if change.clears (linked.rowsMap.get? change.key) = some p then none
        else linked.afterMap.get? p := by
  cases change with
  | insert k after cells => exact OrdMap.get?_set _ _ _ _
  | delete k =>
    show (match linked.rowsMap.get? k with
      | some ⟨_, some (some after), _⟩ => linked.afterMap.delete (some after)
      | _ => linked.afterMap).get? p =
        if RowChange.clears (linked.rowsMap.get? k) (.delete k) = some p then none
        else linked.afterMap.get? p
    rcases linked.rowsMap.get? k with _ | ⟨key, _ | _ | after, cells⟩
    · rfl
    · rfl
    · rfl
    · show (linked.afterMap.delete (some after)).get? p =
        if some (some after) = some p then none else linked.afterMap.get? p
      rw [OrdMap.get?_delete]
      by_cases hp : p = some after
      · rw [if_pos hp, if_pos (congrArg some hp.symm)]
      · rw [if_neg hp, if_neg fun h => hp (Option.some.inj h).symm]
  | update k after cells changed =>
    show (changed.foldl (assignColumn k after cells) _).2.get? p = _
    rw [(foldl_assignColumn _).2, RowChange.link]
    by_cases hafter : ColumnName.after ∈ changed
    · simp [hafter]
    · simp [hafter, RowChange.clears]

/-! ### A batch of changes -/

section

variable {changes : List (RowChange C J V)} (hnodup : (changes.map RowChange.key).Nodup)
include hnodup

/-- Every key of a batch has the row that its change leaves. -/
theorem get?_rowsMap_foldl (linked : LinkedRows C V J) :
    (∀ change ∈ changes, (changes.foldl LinkedRows.applyRow linked).rowsMap.get? change.key =
      change.leaves (linked.rowsMap.get? change.key)) ∧
    ∀ key, key ∉ changes.map RowChange.key →
      (changes.foldl LinkedRows.applyRow linked).rowsMap.get? key = linked.rowsMap.get? key := by
  induction changes generalizing linked with
  | nil => exact ⟨fun _ h => absurd h List.not_mem_nil, fun _ _ => rfl⟩
  | cons change changes ih =>
    rw [List.map_cons, List.nodup_cons] at hnodup
    obtain ⟨hin, hout⟩ := ih hnodup.2 (linked.applyRow change)
    rw [List.foldl_cons]
    constructor
    · intro c hc
      rcases List.mem_cons.mp hc with rfl | hc
      · rw [hout _ hnodup.1, get?_rowsMap_applyRow, if_pos rfl]
      · have hne : c.key ≠ change.key := fun h => hnodup.1 (h ▸ List.mem_map_of_mem hc)
        rw [hin c hc, get?_rowsMap_applyRow, if_neg hne]
    · intro key hkey
      rw [List.map_cons, List.mem_cons, not_or] at hkey
      rw [hout key hkey.2, get?_rowsMap_applyRow, if_neg hkey.1]

/-- A link stands after a batch that sets it, or finds it, and sets or takes away nothing in its
place. -/
theorem get?_afterMap_foldl {linked : LinkedRows C V J} {p : Option J} {key : J}
    (hsets : ∀ change ∈ changes, ∀ key', change.link = some (p, key') → key' = key)
    (hclears : ∀ change ∈ changes,
      change.clears (linked.rowsMap.get? change.key) ≠ some p)
    (h : linked.afterMap.get? p = some key ∨ ∃ change ∈ changes, change.link = some (p, key)) :
    (changes.foldl LinkedRows.applyRow linked).afterMap.get? p = some key := by
  induction changes generalizing linked with
  | nil =>
    rcases h with h | ⟨_, hin, -⟩
    · exact h
    · exact absurd hin List.not_mem_nil
  | cons change changes ih =>
    rw [List.map_cons, List.nodup_cons] at hnodup
    rw [List.foldl_cons]
    refine ih hnodup.2 (fun c hc => hsets c (List.mem_cons_of_mem _ hc)) ?_ ?_
    · intro c hc
      have hne : c.key ≠ change.key := fun h => hnodup.1 (h ▸ List.mem_map_of_mem hc)
      rw [get?_rowsMap_applyRow, if_neg hne]
      exact hclears c (List.mem_cons_of_mem _ hc)
    · have hhead := get?_afterMap_applyRow linked change p
      rw [if_neg (hclears change List.mem_cons_self)] at hhead
      have hset := hsets change List.mem_cons_self
      cases hlink : change.link with
      | none =>
        simp only [hlink] at hhead
        rcases h with h | ⟨c, hc, hc'⟩
        · exact .inl (hhead.trans h)
        · rcases List.mem_cons.mp hc with rfl | hc
          · rw [hlink] at hc'
            cases hc'
          · exact .inr ⟨c, hc, hc'⟩
      | some link =>
        obtain ⟨after, key'⟩ := link
        simp only [hlink] at hhead
        by_cases hp : p = after
        · rw [if_pos hp] at hhead
          rw [hset key' (hp ▸ hlink)] at hhead
          exact .inl hhead
        · rw [if_neg hp] at hhead
          rcases h with h | ⟨c, hc, hc'⟩
          · exact .inl (hhead.trans h)
          · rcases List.mem_cons.mp hc with rfl | hc
            · rw [hlink] at hc'
              exact absurd (congrArg Prod.fst (Option.some.inj hc')).symm hp
            · exact .inr ⟨c, hc, hc'⟩

end

end

end LiveQueries
