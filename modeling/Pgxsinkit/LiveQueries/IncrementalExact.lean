/-
Which runs of an incremental query hand out their results.

`Refreshable` is what a refresh needs: the database takes two keys, or two cells, for one only
where the client gets one value, and no inserted row comes after the row that a deleted row came
after.  In a run of such refreshes the rows handed out are the rows of the result (`run_exact`).
-/
import Pgxsinkit.LiveQueries.IncrementalRun

namespace LiveQueries

variable {C K V J : Type} {columns : LiveColumns C K V J}

/-- No two rows of a result have one key. -/
def LiveColumns.UniqueKey (columns : LiveColumns C K V J) (rows : List (ResultRow C K V)) : Prop :=
  rows.Pairwise fun a b => columns.keyEq a.key b.key = false

/-- Two keys are one key for the client when they are one value, wherever they are read. -/
def LiveColumns.ReadsValues (columns : LiveColumns C K V J) : Prop :=
  ∀ cell cell' key key', columns.read cell key = columns.read cell' key' ↔ key = key'

/-- A pair of results whose changes the client can follow. -/
structure LiveColumns.Refreshable (columns : LiveColumns C K V J)
    (prev curr : List (ResultRow C K V)) : Prop where
  keys : ∀ a ∈ prev, ∀ b ∈ curr,
    columns.keyEq a.key b.key = true ∨ columns.keyEq b.key a.key = true → a.key = b.key
  cells : ∀ a ∈ prev, ∀ b ∈ curr, a.key = b.key → ∀ c,
    columns.distinct (b.cells c) (a.cells c) = false → b.cells c = a.cells c
  links : ∀ d ∈ lag none prev, d.2.key ∉ keysOf curr → ∀ e ∈ lag none curr, e.2.key ∉ keysOf prev →
    d.1 = e.1 → d.1 = none

theorem LiveColumns.UniqueKey.nodup {rows : List (ResultRow C K V)} (h : columns.UniqueKey rows) :
    (keysOf rows).Nodup := by
  rw [keysOf, List.Nodup, List.pairwise_map]
  refine List.Pairwise.imp (fun {a b} hne heq => ?_) h
  rw [heq, columns.keyEq_refl] at hne
  cases hne

/-! ### The rows of the diff -/

section

variable {prev curr : List (ResultRow C K V)}

theorem mem_of_mem_lag {before : Option K} {rows : List (ResultRow C K V)}
    {e : Option K × ResultRow C K V} (h : e ∈ lag before rows) : e.2 ∈ rows := by
  rw [← map_snd_lag before rows]
  exact List.mem_map_of_mem h

theorem exists_of_mem_lag {rows : List (ResultRow C K V)} {e : Option K × ResultRow C K V} {key : K}
    (h : e ∈ lag none rows) (hbefore : e.1 = some key) : ∃ row ∈ rows, row.key = key := by
  have hmem : ∀ {b : Option K} {rows : List (ResultRow C K V)}, e ∈ lag b rows →
      e.1 = b ∨ ∃ row ∈ rows, e.1 = some row.key := by
    intro b rows
    induction rows generalizing b with
    | nil => exact fun h => absurd h List.not_mem_nil
    | cons row rows ih =>
      intro h
      rw [lag, List.mem_cons] at h
      rcases h with rfl | h
      · exact .inl rfl
      · rcases ih h with heq | ⟨row', hrow', heq⟩
        · exact .inr ⟨row, List.mem_cons_self, heq⟩
        · exact .inr ⟨row', List.mem_cons_of_mem _ hrow', heq⟩
  rcases hmem h with heq | ⟨row, hrow, heq⟩
  · exact absurd (heq.symm.trans hbefore) (Option.some_ne_none key).symm
  · exact ⟨row, hrow, Option.some.inj (heq.symm.trans hbefore)⟩

variable (hok : columns.Refreshable prev curr)
include hok

theorem joins_iff {e d : Option K × ResultRow C K V} (he : e ∈ lag none curr)
    (hd : d ∈ lag none prev) :
    (columns.joins e d = true ↔ d.2.key = e.2.key) ∧
      (columns.joins d e = true ↔ d.2.key = e.2.key) := by
  have hkeys := hok.keys d.2 (mem_of_mem_lag hd) e.2 (mem_of_mem_lag he)
  refine ⟨⟨fun h => hkeys (.inr h), fun h => ?_⟩, ⟨fun h => hkeys (.inl h), fun h => ?_⟩⟩
  · rw [LiveColumns.joins, h]
    exact columns.keyEq_refl _
  · rw [LiveColumns.joins, h]
    exact columns.keyEq_refl _

theorem mem_insertRows {change : RowChange C K V} :
    change ∈ columns.insertRows (lag none prev) (lag none curr) ↔
      ∃ e ∈ lag none curr, e.2.key ∉ keysOf prev ∧ change = .insert e.2.key e.1 e.2.cells := by
  have hany : ∀ e ∈ lag none curr, (!(lag none prev).any (columns.joins e)) = true ↔
      e.2.key ∉ keysOf prev := by
    intro e he
    rw [Bool.not_eq_true', Bool.eq_false_iff, not_iff_not, List.any_eq_true, mem_keysOf_lag]
    exact exists_congr fun d => and_congr_right fun hd => (joins_iff hok he hd).1
  rw [LiveColumns.insertRows, List.mem_map]
  constructor
  · rintro ⟨e, he, rfl⟩
    obtain ⟨he, hnot⟩ := List.mem_filter.mp he
    exact ⟨e, he, (hany e he).mp hnot, rfl⟩
  · rintro ⟨e, he, hnot, rfl⟩
    exact ⟨e, List.mem_filter.mpr ⟨he, (hany e he).mpr hnot⟩, rfl⟩

theorem mem_deleteRows {change : RowChange C K V} :
    change ∈ columns.deleteRows (lag none prev) (lag none curr) ↔
      ∃ d ∈ lag none prev, d.2.key ∉ keysOf curr ∧ change = .delete d.2.key := by
  have hany : ∀ d ∈ lag none prev, (!(lag none curr).any (columns.joins d)) = true ↔
      d.2.key ∉ keysOf curr := by
    intro d hd
    rw [Bool.not_eq_true', Bool.eq_false_iff, not_iff_not, List.any_eq_true, mem_keysOf_lag]
    exact exists_congr fun e => and_congr_right fun he => (joins_iff hok he hd).2.trans eq_comm
  rw [LiveColumns.deleteRows, List.mem_map]
  constructor
  · rintro ⟨d, hd, rfl⟩
    obtain ⟨hd, hnot⟩ := List.mem_filter.mp hd
    exact ⟨d, hd, (hany d hd).mp hnot, rfl⟩
  · rintro ⟨d, hd, hnot, rfl⟩
    exact ⟨d, List.mem_filter.mpr ⟨hd, (hany d hd).mpr hnot⟩, rfl⟩

theorem mem_updateRows {change : RowChange C K V} :
    change ∈ columns.updateRows (lag none prev) (lag none curr) ↔
      ∃ e ∈ lag none curr, ∃ d ∈ lag none prev, d.2.key = e.2.key ∧
        columns.notDistinct e d = false ∧ change = columns.updateRow e d := by
  rw [LiveColumns.updateRows, List.mem_flatMap]
  refine exists_congr fun e => and_congr_right fun he => ?_
  rw [List.mem_map]
  constructor
  · rintro ⟨d, hd, rfl⟩
    obtain ⟨hd, hboth⟩ := List.mem_filter.mp hd
    rw [Bool.and_eq_true, Bool.not_eq_true'] at hboth
    exact ⟨d, hd, (joins_iff hok he hd).1.mp hboth.1, hboth.2, rfl⟩
  · rintro ⟨d, hd, hkey, hdistinct, rfl⟩
    refine ⟨d, List.mem_filter.mpr ⟨hd, ?_⟩, rfl⟩
    rw [Bool.and_eq_true, Bool.not_eq_true']
    exact ⟨(joins_iff hok he hd).1.mpr hkey, hdistinct⟩

theorem isDistinct_after_false {e d : Option K × ResultRow C K V} (he : e ∈ lag none curr)
    (hd : d ∈ lag none prev) (h : columns.isDistinct e d .after = false) : e.1 = d.1 := by
  show e.1 = d.1
  change columns.afterDistinct e.1 d.1 = false at h
  cases hkey : e.1 with
  | none =>
    cases hkey' : d.1 with
    | none => rfl
    | some k' =>
      rw [hkey, hkey'] at h
      cases h
  | some k =>
    cases hkey' : d.1 with
    | none =>
      rw [hkey, hkey'] at h
      cases h
    | some k' =>
      rw [hkey, hkey', LiveColumns.afterDistinct, Bool.not_eq_false'] at h
      obtain ⟨b, hb, rfl⟩ := exists_of_mem_lag he hkey
      obtain ⟨a, ha, rfl⟩ := exists_of_mem_lag hd hkey'
      rw [hok.keys a ha b hb (.inr h)]

omit hok in
theorem mem_changedColumns {e d : Option K × ResultRow C K V} {name : ColumnName C} :
    name ∈ columns.changedColumns e d ↔ columns.isDistinct e d name = true := by
  rw [LiveColumns.changedColumns, List.mem_filter, and_iff_right_iff_imp, LiveColumns.compared]
  intro _
  cases name with
  | column c => exact List.mem_append_left _ (List.mem_map_of_mem (columns.complete c))
  | after => exact List.mem_append_right _ (List.mem_singleton_self _)

omit hok in
theorem notDistinct_eq_true {e d : Option K × ResultRow C K V} (h : columns.notDistinct e d = true)
    (name : ColumnName C) : columns.isDistinct e d name = false := by
  have hall := List.all_eq_true.mp h name
  rw [Bool.not_eq_true'] at hall
  by_contra hnot
  rw [Bool.not_eq_false] at hnot
  rw [hall (List.mem_filter.mp (mem_changedColumns.mpr hnot)).1] at hnot
  cases hnot

section

variable (hprev : (keysOf prev).Nodup) (hcurr : (keysOf curr).Nodup)
include hprev hcurr

theorem nodup_updateKeys :
    ((columns.updateRows (lag none prev) (lag none curr)).map RowChange.key).Nodup := by
  rw [LiveColumns.updateRows, List.map_flatMap, List.nodup_flatMap]
  constructor
  · intro e he
    -- all of its keys are the key of the row, and a result has it once
    have hkeys : ((lag none prev).filter fun old =>
          columns.joins e old && !columns.notDistinct e old).map (fun d => d.2.key) =
        (((lag none prev).filter fun old =>
          columns.joins e old && !columns.notDistinct e old).map
            (columns.updateRow e)).map RowChange.key := by
      rw [List.map_map]
      refine List.map_congr_left fun d hd => ?_
      obtain ⟨hd, hboth⟩ := List.mem_filter.mp hd
      rw [Bool.and_eq_true] at hboth
      exact (joins_iff hok he hd).1.mp hboth.1
    rw [← hkeys]
    rw [← map_key_lag none prev] at hprev
    exact hprev.sublist (List.filter_sublist.map _)
  · rw [← map_key_lag none curr, List.Nodup, List.pairwise_map] at hcurr
    refine hcurr.imp fun {e e'} hne key hkey hkey' => ?_
    have hmem : ∀ {e : Option K × ResultRow C K V}, key ∈ (((lag none prev).filter fun old =>
        columns.joins e old && !columns.notDistinct e old).map (columns.updateRow e)).map
          RowChange.key → key = e.2.key := by
      intro e hin
      obtain ⟨_, hchange, rfl⟩ := List.mem_map.mp hin
      obtain ⟨_, -, rfl⟩ := List.mem_map.mp hchange
      rfl
    exact hne ((hmem hkey).symm.trans (hmem hkey'))

/-- A batch has one change for a key. -/
theorem nodup_diff (diff : columns.Diff prev curr) : (diff.rows.map RowChange.key).Nodup := by
  have hinserted : (diff.inserted.map RowChange.key).Nodup := by
    rw [(diff.inserted_perm.map _).nodup_iff, LiveColumns.insertRows, List.map_map]
    rw [← map_key_lag none curr] at hcurr
    exact hcurr.sublist (List.filter_sublist.map _)
  have hdeleted : (diff.deleted.map RowChange.key).Nodup := by
    rw [(diff.deleted_perm.map _).nodup_iff, LiveColumns.deleteRows, List.map_map]
    rw [← map_key_lag none prev] at hprev
    exact hprev.sublist (List.filter_sublist.map _)
  have hupdated : (diff.updated.map RowChange.key).Nodup := by
    rw [(diff.updated_perm.map _).nodup_iff]
    exact nodup_updateKeys hok hprev hcurr
  have hnew : ∀ change ∈ diff.inserted, change.key ∈ keysOf curr ∧ change.key ∉ keysOf prev := by
    intro change hchange
    obtain ⟨e, he, hnot, rfl⟩ := (mem_insertRows hok).mp (diff.inserted_perm.mem_iff.mp hchange)
    exact ⟨mem_keysOf_lag.mpr ⟨e, he, rfl⟩, hnot⟩
  have hgone : ∀ change ∈ diff.deleted, change.key ∉ keysOf curr := by
    intro change hchange
    obtain ⟨d, -, hnot, rfl⟩ := (mem_deleteRows hok).mp (diff.deleted_perm.mem_iff.mp hchange)
    exact hnot
  have hkept : ∀ change ∈ diff.updated, change.key ∈ keysOf curr ∧ change.key ∈ keysOf prev := by
    intro change hchange
    obtain ⟨e, he, d, hd, hkey, -, rfl⟩ :=
      (mem_updateRows hok).mp (diff.updated_perm.mem_iff.mp hchange)
    exact ⟨mem_keysOf_lag.mpr ⟨e, he, rfl⟩, mem_keysOf_lag.mpr ⟨d, hd, hkey⟩⟩
  rw [LiveColumns.Diff.rows, List.map_append, List.map_append, List.nodup_append,
    List.nodup_append]
  refine ⟨⟨hinserted, hdeleted, ?_⟩, hupdated, ?_⟩
  · intro a ha b hb heq
    obtain ⟨change, hchange, rfl⟩ := List.mem_map.mp ha
    obtain ⟨change', hchange', rfl⟩ := List.mem_map.mp hb
    exact hgone change' hchange' (heq ▸ (hnew change hchange).1)
  · intro a ha b hb heq
    obtain ⟨change', hchange', rfl⟩ := List.mem_map.mp hb
    rcases List.mem_append.mp ha with ha | ha
    · obtain ⟨change, hchange, rfl⟩ := List.mem_map.mp ha
      exact (hnew change hchange).2 (heq ▸ (hkept change' hchange').2)
    · obtain ⟨change, hchange, rfl⟩ := List.mem_map.mp ha
      exact hgone change hchange (heq ▸ (hkept change' hchange').1)

end

/-! ### A refresh -/

/-- A change under the keys the client has. -/
def RowChange.mapKey (j : K → J) : RowChange C K V → RowChange C J V
  | .insert key after cells => .insert (j key) (after.map j) cells
  | .delete key => .delete (j key)
  | .update key after cells changed => .update (j key) (after.map j) cells changed

omit hok in
theorem key_mapKey (j : K → J) (change : RowChange C K V) : (change.mapKey j).key = j change.key := by
  cases change <;> rfl

/-- Where a change of the diff comes from. -/
theorem mem_diff {diff : columns.Diff prev curr} {change : RowChange C K V} :
    change ∈ diff.rows ↔
      (∃ e ∈ lag none curr, e.2.key ∉ keysOf prev ∧ change = .insert e.2.key e.1 e.2.cells) ∨
      (∃ d ∈ lag none prev, d.2.key ∉ keysOf curr ∧ change = .delete d.2.key) ∨
      ∃ e ∈ lag none curr, ∃ d ∈ lag none prev, d.2.key = e.2.key ∧
        columns.notDistinct e d = false ∧ change = columns.updateRow e d := by
  rw [LiveColumns.Diff.rows, List.mem_append, List.mem_append, diff.inserted_perm.mem_iff,
    diff.deleted_perm.mem_iff, diff.updated_perm.mem_iff, mem_insertRows hok, mem_deleteRows hok,
    mem_updateRows hok, or_assoc]

section

variable [DecidableEq C] [DecidableEq J] {j : K → J} (hj : Function.Injective j)
  {linked : LinkedRows C V J} (hshows : Shows j linked prev)
  (hprev : (keysOf prev).Nodup) (hcurr : (keysOf curr).Nodup) (diff : columns.Diff prev curr)
include hj hprev hcurr

omit [DecidableEq C] [DecidableEq J] in
theorem nodup_mapKey : ((diff.rows.map (RowChange.mapKey j)).map RowChange.key).Nodup := by
  have hkeys : (diff.rows.map (RowChange.mapKey j)).map RowChange.key =
      (diff.rows.map RowChange.key).map j := by
    rw [List.map_map, List.map_map]
    exact List.map_congr_left fun change _ => key_mapKey j change
  rw [hkeys]
  exact (nodup_diff hok hprev hcurr diff).map hj

include hshows

/-- The object of a row that is in both results. -/
theorem get?_rowsMap_kept {e d : Option K × ResultRow C K V} (he : e ∈ lag none curr)
    (hd : d ∈ lag none prev) (hkey : d.2.key = e.2.key) :
    ((diff.rows.map (RowChange.mapKey j)).foldl LinkedRows.applyRow linked).rowsMap.get? (j e.2.key) =
      some (objectOf j e) := by
  obtain ⟨hin, hout⟩ := get?_rowsMap_foldl (nodup_mapKey hok hj hprev hcurr diff) linked
  have hold := hshows.row d hd
  rw [hkey] at hold
  -- the cells of a column that did not change are the cells there were
  have hcell : ∀ c, columns.isDistinct e d (.column c) = false → e.2.cells c = d.2.cells c :=
    hok.cells d.2 (mem_of_mem_lag hd) e.2 (mem_of_mem_lag he) hkey
  cases hnot : columns.notDistinct e d with
  | false =>
    have hmem : columns.updateRow e d ∈ diff.rows :=
      (mem_diff hok).mpr (.inr (.inr ⟨e, he, d, hd, hkey, hnot, rfl⟩))
    have hget := hin _ (List.mem_map_of_mem hmem)
    rw [key_mapKey] at hget
    refine hget.trans ?_
    show RowChange.leaves (linked.rowsMap.get? (j e.2.key)) _ = _
    rw [hold]
    simp only [RowChange.leaves, RowChange.mapKey, LiveColumns.updateRow, objectOf, Option.getD_some,
      mem_changedColumns, hkey, Option.some.injEq, RowObject.mk.injEq, true_and]
    constructor
    · cases hafter : columns.isDistinct e d .after with
      | true => rfl
      | false => rw [isDistinct_after_false hok he hd hafter]; rfl
    · funext c
      cases hdistinct : columns.isDistinct e d (.column c) with
      | true => rfl
      | false => rw [hcell c hdistinct]; rfl
  | true =>
    have hdistinct := notDistinct_eq_true hnot
    have hnone : j e.2.key ∉ (diff.rows.map (RowChange.mapKey j)).map RowChange.key := by
      intro hmem
      obtain ⟨_, hmapped, hkey'⟩ := List.mem_map.mp hmem
      obtain ⟨change, hchange, rfl⟩ := List.mem_map.mp hmapped
      rw [key_mapKey] at hkey'
      have hkey' := hj hkey'
      rcases (mem_diff hok).mp hchange with ⟨e', -, hnew, rfl⟩ | ⟨d', -, hgone, rfl⟩ |
        ⟨e', he', d', hd', hsame, hchanged, rfl⟩
      · exact hnew (mem_keysOf_lag.mpr ⟨d, hd, hkey.trans hkey'.symm⟩)
      · exact hgone (mem_keysOf_lag.mpr ⟨e, he, hkey'.symm⟩)
      · obtain rfl := eq_of_key_lag hcurr he' he hkey'
        obtain rfl := eq_of_key_lag hprev hd' hd (hsame.trans hkey.symm)
        rw [hchanged] at hnot
        cases hnot
    rw [hout _ hnone, hold, objectOf, objectOf, hkey,
      isDistinct_after_false hok he hd (hdistinct .after)]
    congr 2
    funext c
    rw [hcell c (hdistinct (.column c))]

theorem shows_row {e : Option K × ResultRow C K V} (he : e ∈ lag none curr) :
    ((diff.rows.map (RowChange.mapKey j)).foldl LinkedRows.applyRow linked).rowsMap.get? (j e.2.key) =
      some (objectOf j e) := by
  by_cases hkey : e.2.key ∈ keysOf prev
  · obtain ⟨d, hd, hkey⟩ := mem_keysOf_lag.mp hkey
    exact get?_rowsMap_kept hok hj hshows hprev hcurr diff he hd hkey
  · have hmem : RowChange.insert e.2.key e.1 e.2.cells ∈ diff.rows :=
      (mem_diff hok).mpr (.inl ⟨e, he, hkey, rfl⟩)
    exact (get?_rowsMap_foldl (nodup_mapKey hok hj hprev hcurr diff) linked).1 _
      (List.mem_map_of_mem hmem)

theorem shows_only {key : J} {obj : RowObject C V J}
    (hget : ((diff.rows.map (RowChange.mapKey j)).foldl LinkedRows.applyRow linked).rowsMap.get? key =
      some obj) : ∃ k ∈ keysOf curr, j k = key := by
  obtain ⟨hin, hout⟩ := get?_rowsMap_foldl (nodup_mapKey hok hj hprev hcurr diff) linked
  by_cases hkey : key ∈ (diff.rows.map (RowChange.mapKey j)).map RowChange.key
  · obtain ⟨_, hmapped, rfl⟩ := List.mem_map.mp hkey
    rw [hin _ hmapped] at hget
    obtain ⟨change, hchange, rfl⟩ := List.mem_map.mp hmapped
    rw [key_mapKey]
    rcases (mem_diff hok).mp hchange with ⟨e, he, -, rfl⟩ | ⟨d, -, -, rfl⟩ | ⟨e, he, d, -, -, -, rfl⟩
    · exact ⟨_, mem_keysOf_lag.mpr ⟨e, he, rfl⟩, rfl⟩
    · cases hget
    · exact ⟨_, mem_keysOf_lag.mpr ⟨e, he, rfl⟩, rfl⟩
  · rw [hout key hkey] at hget
    obtain ⟨k, hk, rfl⟩ := hshows.only key obj hget
    refine ⟨k, ?_, rfl⟩
    by_contra hgone
    -- a row that is gone is among the deletes
    obtain ⟨d, hd, rfl⟩ := mem_keysOf_lag.mp hk
    have hmem : RowChange.delete d.2.key ∈ diff.rows :=
      (mem_diff hok).mpr (.inr (.inl ⟨d, hd, hgone, rfl⟩))
    exact hkey (List.mem_map_of_mem (List.mem_map_of_mem hmem))

omit hshows hprev [DecidableEq J] in
/-- No change of the diff puts another row in the place of a row. -/
theorem link_mapKey {e : Option K × ResultRow C K V} (he : e ∈ lag none curr)
    {change : RowChange C K V} (hchange : change ∈ diff.rows) {key : J}
    (hlink : (change.mapKey j).link = some (e.1.map j, key)) : key = j e.2.key := by
  have hsame : ∀ {e' : Option K × ResultRow C K V}, e' ∈ lag none curr →
      (e'.1.map j, j e'.2.key) = (e.1.map j, key) → key = j e.2.key := by
    intro e' he' heq
    rw [Prod.mk.injEq] at heq
    rw [← heq.2, eq_of_fst_lag hcurr he' he (Option.map_injective hj heq.1)]
  rcases (mem_diff hok).mp hchange with ⟨e', he', -, rfl⟩ | ⟨d, -, -, rfl⟩ | ⟨e', he', d, -, -, -, rfl⟩
  · exact hsame he' (Option.some.inj hlink)
  · cases hlink
  · simp only [LiveColumns.updateRow, RowChange.mapKey, RowChange.link, mem_changedColumns] at hlink
    split at hlink
    · exact hsame he' (Option.some.inj hlink)
    · cases hlink

omit hprev hcurr [DecidableEq C] in
/-- The only links a batch takes away are those of the rows that are gone. -/
theorem clears_mapKey {change : RowChange C K V} (hchange : change ∈ diff.rows) {p : Option K}
    (hclears : (change.mapKey j).clears (linked.rowsMap.get? (change.mapKey j).key) =
      some (p.map j)) :
    ∃ d ∈ lag none prev, d.2.key ∉ keysOf curr ∧ d.1 ≠ none ∧ d.1 = p := by
  rcases (mem_diff hok).mp hchange with ⟨_, -, -, rfl⟩ | ⟨d, hd, hgone, rfl⟩ | ⟨_, -, _, -, -, -, rfl⟩
  · cases hclears
  · rw [key_mapKey] at hclears
    change RowChange.clears (linked.rowsMap.get? (j d.2.key)) (.delete (j d.2.key)) = _ at hclears
    rw [hshows.row d hd, objectOf] at hclears
    refine ⟨d, hd, hgone, ?_⟩
    cases hbefore : d.1 with
    | none =>
      rw [hbefore] at hclears
      cases hclears
    | some before =>
      rw [hbefore] at hclears
      exact ⟨Option.some_ne_none before, Option.map_injective hj (Option.some.inj hclears)⟩
  · cases hclears

theorem shows_link {e : Option K × ResultRow C K V} (he : e ∈ lag none curr) :
    ((diff.rows.map (RowChange.mapKey j)).foldl LinkedRows.applyRow linked).afterMap.get?
      (e.1.map j) = some (j e.2.key) := by
  have hnodup := nodup_mapKey hok hj hprev hcurr diff
  have hsets : ∀ change ∈ diff.rows, ∀ key,
      (change.mapKey j).link = some (e.1.map j, key) → key = j e.2.key :=
    fun change hchange key => link_mapKey hok hj hcurr diff he hchange
  have hkeep : (∀ d ∈ lag none prev, d.2.key ∉ keysOf curr → d.1 ≠ none → d.1 ≠ e.1) →
      (linked.afterMap.get? (e.1.map j) = some (j e.2.key) ∨ ∃ change ∈ diff.rows,
        (change.mapKey j).link = some (e.1.map j, j e.2.key)) →
      ((diff.rows.map (RowChange.mapKey j)).foldl LinkedRows.applyRow linked).afterMap.get?
        (e.1.map j) = some (j e.2.key) := by
    intro hgone h
    refine get?_afterMap_foldl hnodup ?_ ?_ ?_
    · intro _ hmapped
      obtain ⟨change, hchange, rfl⟩ := List.mem_map.mp hmapped
      exact hsets change hchange
    · intro _ hmapped hclears
      obtain ⟨change, hchange, rfl⟩ := List.mem_map.mp hmapped
      obtain ⟨d, hd, hnot, hne, heq⟩ := clears_mapKey hok hj hshows diff hchange hclears
      exact hgone d hd hnot hne heq
    · exact h.imp_right fun ⟨change, hchange, hlink⟩ => ⟨_, List.mem_map_of_mem hchange, hlink⟩
  by_cases hkey : e.2.key ∈ keysOf prev
  · obtain ⟨d, hd, hkey⟩ := mem_keysOf_lag.mp hkey
    cases hafter : columns.isDistinct e d .after with
    | false =>
      -- the row is where it was
      have hbefore := isDistinct_after_false hok he hd hafter
      refine hkeep (fun d' hd' hgone _ heq => ?_) (.inl ?_)
      · obtain rfl := eq_of_fst_lag hprev hd' hd (heq.trans hbefore)
        exact hgone (mem_keysOf_lag.mpr ⟨e, he, hkey.symm⟩)
      · rw [hbefore, ← hkey]
        exact hshows.link d hd
    | true =>
      -- the updates come last, and this one sets the link
      have hchanged : columns.notDistinct e d = false := by
        by_contra hnot
        rw [Bool.not_eq_false] at hnot
        rw [notDistinct_eq_true hnot] at hafter
        cases hafter
      have hupdate : columns.updateRow e d ∈ diff.updated := by
        rw [diff.updated_perm.mem_iff, mem_updateRows hok]
        exact ⟨e, he, d, hd, hkey, hchanged, rfl⟩
      have hin : ∀ change ∈ diff.updated, change ∈ diff.rows :=
        fun change h => List.mem_append_right _ h
      rw [LiveColumns.Diff.rows, List.map_append, List.foldl_append]
      refine get?_afterMap_foldl ?_ ?_ ?_ (.inr ⟨_, List.mem_map_of_mem hupdate, ?_⟩)
      · rw [LiveColumns.Diff.rows, List.map_append, List.map_append, List.nodup_append] at hnodup
        exact hnodup.2.1
      · intro _ hmapped
        obtain ⟨change, hchange, rfl⟩ := List.mem_map.mp hmapped
        exact hsets change (hin change hchange)
      · intro _ hmapped hclears
        obtain ⟨change, hchange, rfl⟩ := List.mem_map.mp hmapped
        obtain ⟨_, -, _, -, -, -, rfl⟩ :=
          (mem_updateRows hok).mp (diff.updated_perm.mem_iff.mp hchange)
        cases hclears
      · simp only [LiveColumns.updateRow, RowChange.mapKey, RowChange.link, mem_changedColumns,
          hafter, if_true]
  · have hmem : RowChange.insert e.2.key e.1 e.2.cells ∈ diff.rows :=
      (mem_diff hok).mpr (.inl ⟨e, he, hkey, rfl⟩)
    exact hkeep (fun d hd hgone hne heq => hne (hok.links d hd hgone e he hkey heq))
      (.inr ⟨_, hmem, rfl⟩)

/-- The maps that held a result hold the next one. -/
theorem shows_refresh :
    Shows j ((diff.rows.map (RowChange.mapKey j)).foldl LinkedRows.applyRow linked) curr where
  row _ he := shows_row hok hj hshows hprev hcurr diff he
  only _ _ hget := shows_only hok hj hshows hprev hcurr diff hget
  link _ he := shows_link hok hj hshows hprev hcurr diff he

end

end

/-! ### Runs -/

section

variable [DecidableEq C] [DecidableEq J]

/-- The runs of a live query over results with a unique key, each refresh under a condition on the
two results. -/
inductive IncrementalQuery.Run (columns : LiveColumns C K V J)
    (condition : List (ResultRow C K V) → List (ResultRow C K V) → Prop) :
    IncrementalQuery C K V J → Prop
  | initial : Run columns condition .initial
  | refresh {q : IncrementalQuery C K V J} (run : Run columns condition q) (reset : Bool)
      {curr : List (ResultRow C K V)} (unique : columns.UniqueKey curr)
      (step : condition (q.previous reset) curr) (diff : columns.Diff (q.previous reset) curr) :
      Run columns condition (q.refresh columns reset curr diff)

/-- What a refresh finds and leaves. -/
structure IncrementalQuery.Exact (j : K → J) (q : IncrementalQuery C K V J) : Prop where
  shows : Shows j q.linked q.state
  nodup : (keysOf q.state).Nodup
  rows : q.rows = q.state.map (cleanOf j)

omit [DecidableEq C] in
theorem exact_initial (j : K → J) : (IncrementalQuery.initial : IncrementalQuery C K V J).Exact j where
  shows := shows_empty j
  nodup := List.nodup_nil
  rows := rfl

omit [DecidableEq C] [DecidableEq J] in
/-- Where keys are values, the client reads the batch as it is. -/
theorem readRows_eq (hread : columns.ReadsValues) (cell : KeyCell) (refresh : ℕ)
    (rows : List (RowChange C K V)) :
    columns.readRows refresh rows = rows.map (RowChange.mapKey (columns.read cell)) := by
  have hsame : ∀ cell', columns.read cell' = columns.read cell := fun cell' =>
    funext fun key => (hread cell' cell key key).mpr rfl
  have hchange : ∀ i, columns.readChange refresh i = RowChange.mapKey (columns.read cell) := by
    intro i
    funext change
    cases change with
    | insert key after cells => rw [LiveColumns.readChange, hsame, hsame ⟨refresh, i, true⟩]; rfl
    | delete key => rw [LiveColumns.readChange, hsame]; rfl
    | update key after cells changed =>
      rw [LiveColumns.readChange, hsame, hsame ⟨refresh, i, true⟩]; rfl
  rw [LiveColumns.readRows, List.mapIdx_eq_iff]
  intro i
  rw [List.getElem?_map, hchange]

theorem IncrementalQuery.Exact.refresh (hread : columns.ReadsValues) (cell : KeyCell)
    {q : IncrementalQuery C K V J} (h : q.Exact (columns.read cell)) (reset : Bool)
    {curr : List (ResultRow C K V)} (hunique : columns.UniqueKey curr)
    (hok : columns.Refreshable (q.previous reset) curr)
    (diff : columns.Diff (q.previous reset) curr) :
    (q.refresh columns reset curr diff).Exact (columns.read cell) := by
  have hj : Function.Injective (columns.read cell) := fun key key' heq =>
    (hread cell cell key key').mp heq
  obtain ⟨hshows, hprev⟩ : Shows (columns.read cell)
        (if reset then LinkedRows.empty else q.linked) (q.previous reset) ∧
      (keysOf (q.previous reset)).Nodup := by
    cases reset with
    | true => exact ⟨shows_empty _, List.nodup_nil⟩
    | false => exact ⟨h.shows, h.nodup⟩
  have hnext := shows_refresh hok hj hshows hprev hunique.nodup diff
  have hlinked : (q.refresh columns reset curr diff).linked =
      (diff.rows.map (RowChange.mapKey (columns.read cell))).foldl LinkedRows.applyRow
        (if reset then LinkedRows.empty else q.linked) := by
    rw [IncrementalQuery.refresh, readRows_eq hread cell]
    cases reset with
    | true => exact List.foldl_map
    | false => exact List.foldl_map
  refine ⟨hlinked ▸ hnext, hunique.nodup, ?_⟩
  show (q.refresh columns reset curr diff).linked.follow
    (q.refresh columns reset curr diff).linked.rowsMap.size none = curr.map (cleanOf _)
  rw [hlinked]
  exact follow_eq hj hnext hunique.nodup

/-- In a run of refreshes the client can follow, the rows handed out are the rows of the result. -/
theorem run_exact (hread : columns.ReadsValues) (cell : KeyCell) {q : IncrementalQuery C K V J}
    (hrun : q.Run columns columns.Refreshable) : q.rows = q.state.map (cleanOf (columns.read cell)) := by
  have hexact : q.Exact (columns.read cell) := by
    induction hrun with
    | initial => exact exact_initial _
    | refresh _ reset hunique hstep diff ih => exact ih.refresh hread cell reset hunique hstep diff
  exact hexact.rows

/-- The parts of the diff in the order of the results. -/
def LiveColumns.diff (columns : LiveColumns C K V J) (prev curr : List (ResultRow C K V)) :
    columns.Diff prev curr where
  inserted := columns.insertRows (lag none prev) (lag none curr)
  deleted := columns.deleteRows (lag none prev) (lag none curr)
  updated := columns.updateRows (lag none prev) (lag none curr)
  inserted_perm := List.Perm.refl _
  deleted_perm := List.Perm.refl _
  updated_perm := List.Perm.refl _

end

/-- A query for an integer key alone. -/
def keyColumn : LiveColumns Empty ℕ Unit ℕ where
  names := []
  complete := nofun
  null := ()
  keyEq a b := a == b
  keyEq_refl _ := beq_self_eq_true _
  distinct _ _ := false
  read _ key := key

def keyRows (keys : List ℕ) : List (ResultRow Empty ℕ Unit) := keys.map fun key => ⟨key, nofun⟩

/-- The rows that are handed out when the results are these, one after the other. -/
def keyRun (results : List (List ℕ)) : IncrementalQuery Empty ℕ Unit ℕ :=
  results.foldl (fun q keys => q.refresh keyColumn false (keyRows keys) (keyColumn.diff _ _)) .initial

theorem uniqueKey_keyRows {keys : List ℕ} (h : keys.Nodup) : keyColumn.UniqueKey (keyRows keys) := by
  rw [LiveColumns.UniqueKey, keyRows, List.pairwise_map]
  exact h.imp fun hne => beq_false_of_ne hne

/-- A refresh that deletes nothing. -/
theorem refreshable_keyRows {prev curr : List ℕ} (h : prev ⊆ curr) :
    keyColumn.Refreshable (keyRows prev) (keyRows curr) where
  keys _ _ _ _ hjoins := hjoins.elim (fun h => beq_iff_eq.mp h) fun h => (beq_iff_eq.mp h).symm
  cells _ _ _ _ _ c := nomatch c
  links d hd hgone := by
    have hkeys : ∀ keys : List ℕ, keysOf (keyRows keys) = keys := by
      intro keys
      rw [keysOf, keyRows, List.map_map]
      exact List.map_id keys
    have hin : d.2.key ∈ keysOf (keyRows prev) := mem_keysOf_lag.mpr ⟨d, hd, rfl⟩
    rw [hkeys] at hin hgone
    exact absurd (h hin) hgone

theorem keyRun_swapped :
    (keyRun [[1, 2], [3, 2, 1]]).rows = (keyRows [3, 2, 1]).map (cleanOf id) :=
  @run_exact _ _ _ _ keyColumn _ _ (fun _ _ _ _ => Iff.rfl) ⟨0, 0, false⟩ _
    (.refresh (.refresh .initial false (uniqueKey_keyRows (by decide))
        (@refreshable_keyRows [] [1, 2] (List.nil_subset _)) _) false
      (uniqueKey_keyRows (by decide)) (@refreshable_keyRows [1, 2] [3, 2, 1] (by decide)) _)

/-- The row in the middle is replaced, and the rows from there on are lost. -/
theorem keyRun_replaced :
    keyColumn.ReadsValues ∧
      IncrementalQuery.Run keyColumn (fun _ _ => True) (keyRun [[1, 2, 3], [1, 4, 3]]) ∧
      (keyRun [[1, 2, 3], [1, 4, 3]]).state = keyRows [1, 4, 3] ∧
      (keyRun [[1, 2, 3], [1, 4, 3]]).rows.map CleanRow.key = [some 1] :=
  ⟨fun _ _ _ _ => Iff.rfl,
    .refresh (.refresh .initial false (uniqueKey_keyRows (by decide)) trivial _) false
      (uniqueKey_keyRows (by decide)) trivial _, rfl, by decide⟩

end LiveQueries
