/-
The fold against a local table: deletes and then upserts, in statements cut anywhere, leave the
rows that the changes one by one leave.

The net effect of the changes of a key depends on the row that was there only through its
local-only columns, which a delete clears (`foldl_rowAfter`).  Between keys the fold reorders the
upserts, so that a row can meet one that is still to change.  Where every unique index speaks of
columns of the primary key, the two do not collide (`applyFolded_same`).
-/
import Pgxsinkit.Circuits.FoldSpec
import Pgxsinkit.Circuits.LocalTable

namespace Circuits

open Checked

variable {S V : Type} [LinearOrder S] [DecidableEq V] {target : LocalTable S V}

namespace LocalTable

/-! ### Single rows -/

/-- The row an upsert leaves where `old` was. -/
def merged (target : LocalTable S V) (old : Option (Row S (Option V)))
    (value : OrdMap S (Option V)) : Row S (Option V) :=
  match old with
  | none => target.insertedRow value
  | some row => target.excludedRow target.projected row (target.insertedRow value)

/-- What a change leaves where `old` was. -/
def rowAfter (target : LocalTable S V) (old : Option (Row S (Option V)))
    (message : SyncChange S (Option V)) : Option (Row S (Option V)) :=
  match message.operation with
  | .upsert => some (target.merged old message.value)
  | .delete => none

omit [DecidableEq V] in
theorem rowAfter_delete {message : SyncChange S (Option V)} (h : message.operation = .delete)
    (old : Option (Row S (Option V))) : target.rowAfter old message = none := by
  rw [rowAfter, h]

omit [DecidableEq V] in
theorem rowAfter_upsert {message : SyncChange S (Option V)} (h : message.operation = .upsert)
    (old : Option (Row S (Option V))) :
    target.rowAfter old message = some (target.merged old message.value) := by
  rw [rowAfter, h]

omit [DecidableEq V] in
theorem mem_nonPkColumns {columns : List S} {column : S} :
    column ∈ target.nonPkColumns columns ↔ column ∈ columns ∧ column ∉ target.primaryKey := by
  rw [nonPkColumns, List.mem_filter, decide_eq_true_eq]

omit [DecidableEq V] in
theorem excludedRow_perm {columns : List S} (h : columns.Perm target.projected)
    (old proposed : Row S (Option V)) :
    target.excludedRow columns old proposed = target.excludedRow target.projected old proposed := by
  funext column
  rw [excludedRow, excludedRow]
  simp only [mem_nonPkColumns, h.mem_iff]

omit [DecidableEq V] in
theorem excludedRow_nil {columns : List S} (h : target.nonPkColumns columns = [])
    (old proposed : Row S (Option V)) : target.excludedRow columns old proposed = old := by
  funext column
  rw [excludedRow, h, if_neg List.not_mem_nil]

omit [DecidableEq V] in
/-- DO UPDATE keeps the columns of the primary key. -/
theorem excludedRow_of_mem {columns : List S} {column : S} (h : column ∈ target.primaryKey)
    (old proposed : Row S (Option V)) :
    target.excludedRow columns old proposed column = old column :=
  if_neg fun hmem => (mem_nonPkColumns.mp hmem).2 h

omit [DecidableEq V] in
theorem keyOf_excludedRow (columns : List S) (old proposed : Row S (Option V)) :
    target.keyOf (target.excludedRow columns old proposed) = target.keyOf old :=
  List.map_congr_left fun _ h => excludedRow_of_mem h old proposed

omit [DecidableEq V] in
/-- An inserted row has the key its value carries. -/
theorem keyOf_insertedRow {value : OrdMap S (Option V)} (h : target.primaryKey ⊆ value.keys) :
    target.keyOf (target.insertedRow value) = target.valueKey value := by
  refine List.map_congr_left fun column hcolumn => ?_
  obtain ⟨cell, hcell⟩ := OrdMap.mem_keys_iff.mp (h hcolumn)
  rw [ApplyTarget.insertedRow, hcell, Option.getD_some, Option.getD_some]

omit [DecidableEq V] in
theorem keyOf_merged {old : Option (Row S (Option V))} {value : OrdMap S (Option V)} {key : RowKey V}
    (hcarried : target.primaryKey ⊆ value.keys) (hkey : target.valueKey value = key)
    (hold : ∀ row, old = some row → target.keyOf row = key) :
    target.keyOf (target.merged old value) = key := by
  cases old with
  | none => exact (keyOf_insertedRow hcarried).trans hkey
  | some row => exact (keyOf_excludedRow _ _ _).trans (hold row rfl)

/-! ### Statements, row by row -/

/-- The indexes let a row in under its key. -/
def Fits (target : LocalTable S V) (rows : Rows S V) (key : RowKey V) (row : Row S (Option V)) :
    Prop :=
  ∀ index ∈ target.uniqueIndexes, ∀ key' other, rows.get? key' = some other → key' ≠ key →
    ¬ Collide index row other

omit [LinearOrder S] in
theorem store_eq_ok {rows rows' : Rows S V} {key : RowKey V} {row : Row S (Option V)} :
    target.store rows key row = .ok rows' ↔ target.Fits rows key row ∧ rows.set key row = rows' := by
  have hfits : ¬ (∃ index ∈ target.uniqueIndexes, ∃ entry ∈ rows.entries,
      entry.1 ≠ key ∧ Collide index row entry.2) ↔ target.Fits rows key row := by
    constructor
    · intro h index hindex key' other hget hne hcollide
      exact h ⟨index, hindex, _, OrdMap.get?_eq_some_iff.mp hget, hne, hcollide⟩
    · rintro h ⟨index, hindex, entry, hentry, hne, hcollide⟩
      exact h index hindex entry.1 entry.2 (OrdMap.get?_eq_some_iff.mpr hentry) hne hcollide
  simp only [store, bind_eq_ok, throwIf_eq_ok, pure_eq_ok, hfits]
  constructor
  · rintro ⟨_, h⟩
    exact h
  · exact fun h => ⟨(), h⟩

/-- What an upsert of a row does. -/
structure Upserted (target : LocalTable S V) (rows rows' : Rows S V) (value : OrdMap S (Option V)) :
    Prop where
  get : ∀ key, rows'.get? key = if key = target.valueKey value
    then some (target.merged (rows.get? key) value) else rows.get? key
  valid : target.Valid rows → target.Valid rows'

section

variable {columns : List S} {rows rows' : Rows S V} {value : OrdMap S (Option V)}

omit [LinearOrder S] in
theorem valid_set (hvalid : target.Valid rows) {key : RowKey V} {row : Row S (Option V)}
    (hkey : target.keyOf row = key) (hfits : target.Fits rows key row) :
    target.Valid (rows.set key row) where
  keyed := by
    intro key' row' hget
    rw [OrdMap.get?_set] at hget
    split at hget
    · rename_i heq
      rw [heq, ← Option.some.inj hget, hkey]
    · exact hvalid.keyed key' row' hget
  unique := by
    intro index hindex k₁ row₁ k₂ row₂ hget₁ hget₂ hne hcollide
    rw [OrdMap.get?_set] at hget₁ hget₂
    split at hget₁
    · rename_i heq₁
      rw [if_neg fun heq₂ => hne (heq₁.trans heq₂.symm)] at hget₂
      rw [← Option.some.inj hget₁] at hcollide
      exact hfits index hindex k₂ row₂ hget₂ (fun h => hne (heq₁.trans h.symm)) hcollide
    · rename_i hne₁
      split at hget₂
      · -- a collision does not depend on the order of the rows
        rw [← Option.some.inj hget₂] at hcollide
        refine hfits index hindex k₁ row₁ hget₁ hne₁ fun column hcolumn => ?_
        obtain ⟨hnull, heq⟩ := hcollide column hcolumn
        exact ⟨heq ▸ hnull, heq.symm⟩
      · exact hvalid.unique index hindex k₁ row₁ k₂ row₂ hget₁ hget₂ hne hcollide

theorem upserted_of_ok (hcolumns : columns.Perm target.projected)
    (hcarried : target.primaryKey ⊆ value.keys)
    (h : target.upsertRow columns rows value = .ok rows') : target.Upserted rows rows' value := by
  have hkey := keyOf_insertedRow hcarried
  unfold upsertRow at h
  simp only [hkey] at h
  split at h
  · rename_i hnone
    obtain ⟨hfits, rfl⟩ := store_eq_ok.mp h
    refine ⟨fun key => ?_, fun hvalid => valid_set hvalid hkey hfits⟩
    rw [OrdMap.get?_set]
    split
    · rename_i heq
      rw [heq, hnone]
      rfl
    · rfl
  · rename_i old hold
    split at h
    · -- DO NOTHING
      rename_i hnil
      obtain rfl := Except.ok.inj h
      refine ⟨fun key => ?_, id⟩
      split
      · rename_i heq
        rw [heq, hold, merged, ← excludedRow_perm hcolumns, excludedRow_nil hnil]
      · rfl
    · obtain ⟨hfits, rfl⟩ := store_eq_ok.mp h
      refine ⟨fun key => ?_, fun hvalid => valid_set hvalid ?_ hfits⟩
      · rw [OrdMap.get?_set]
        split
        · rename_i heq
          rw [heq, hold, merged, excludedRow_perm hcolumns]
        · rfl
      · rw [keyOf_excludedRow, hvalid.keyed _ old hold]

theorem upsertRow_ok (hcolumns : columns.Perm target.projected)
    (hcarried : target.primaryKey ⊆ value.keys)
    (hfits : target.Fits rows (target.valueKey value)
      (target.merged (rows.get? (target.valueKey value)) value)) :
    ∃ rows', target.upsertRow columns rows value = .ok rows' := by
  have hkey := keyOf_insertedRow hcarried
  unfold upsertRow
  simp only [hkey]
  split
  · rename_i hnone
    rw [hnone] at hfits
    exact ⟨_, store_eq_ok.mpr ⟨hfits, rfl⟩⟩
  · rename_i old hold
    rw [hold, merged, ← excludedRow_perm hcolumns] at hfits
    split
    · exact ⟨rows, rfl⟩
    · exact ⟨_, store_eq_ok.mpr ⟨hfits, rfl⟩⟩

end

omit [LinearOrder S] in
/-- Fewer rows are a valid table as well. -/
theorem Valid.mono {rows rows' : Rows S V} (h : target.Valid rows)
    (hsub : ∀ key row, rows'.get? key = some row → rows.get? key = some row) :
    target.Valid rows' where
  keyed key row hget := h.keyed key row (hsub key row hget)
  unique index hindex key row key' row' hget hget' :=
    h.unique index hindex key row key' row' (hsub key row hget) (hsub key' row' hget')

/-! ### The changes one by one -/

/-- What the stream promises of a single change. -/
structure WireChange (target : LocalTable S V) (message : SyncChange S (Option V)) : Prop where
  full : message.operation = .upsert → message.value.keys.Perm target.projected
  carried : target.primaryKey ⊆ message.value.keys

omit [DecidableEq V] in
theorem WireBatch.change {messages : List (SyncChange S (Option V))}
    (h : target.WireBatch messages) {m : SyncChange S (Option V)} (hm : m ∈ messages) :
    target.WireChange m := ⟨h.full m hm, h.carried m hm⟩

theorem applyMessageToTable_spec {rows rows' : Rows S V} {message : SyncChange S (Option V)}
    (hm : target.WireChange message) (hvalid : target.Valid rows)
    (h : target.applyMessageToTable rows message = .ok rows') :
    target.Valid rows' ∧ ∀ key, rows'.get? key = if key = target.valueKey message.value
      then target.rowAfter (rows.get? key) message else rows.get? key := by
  unfold applyMessageToTable at h
  split at h
  · rename_i hop
    obtain ⟨_, -, hupsert⟩ := bind_eq_ok.mp h
    have hdone := upserted_of_ok (hm.full hop) hm.carried hupsert
    refine ⟨hdone.valid hvalid, fun key => ?_⟩
    rw [hdone.get, rowAfter_upsert hop]
  · rename_i hop
    obtain rfl := Except.ok.inj h
    constructor
    · refine hvalid.mono fun key row hget => ?_
      rw [OrdMap.get?_delete] at hget
      split at hget
      · cases hget
      · exact hget
    · intro key
      rw [OrdMap.get?_delete, rowAfter_delete hop]

/-- The changes of a key, in stream order. -/
def changesOf (target : LocalTable S V) (key : RowKey V) (messages : List (SyncChange S (Option V))) :
    List (SyncChange S (Option V)) :=
  messages.filter fun message => target.valueKey message.value = key

theorem changesOf_cons (key : RowKey V) (message : SyncChange S (Option V))
    (messages : List (SyncChange S (Option V))) : target.changesOf key (message :: messages) =
      if target.valueKey message.value = key then message :: target.changesOf key messages
      else target.changesOf key messages := by
  rw [changesOf, List.filter_cons]
  simp only [decide_eq_true_eq]
  rfl

/-- Applied one by one, the changes of a key act on its row and on no other. -/
theorem applyEach_spec {messages : List (SyncChange S (Option V))} {rows rows' : Rows S V}
    (hm : ∀ m ∈ messages, target.WireChange m) (hvalid : target.Valid rows)
    (h : target.applyEach messages rows = .ok rows') :
    target.Valid rows' ∧ ∀ key, rows'.get? key =
      (target.changesOf key messages).foldl target.rowAfter (rows.get? key) := by
  induction messages generalizing rows with
  | nil =>
    obtain rfl := Except.ok.inj h
    exact ⟨hvalid, fun _ => rfl⟩
  | cons message messages ih =>
    obtain ⟨mid, hfirst, hrest⟩ := bind_eq_ok.mp h
    obtain ⟨hmid, hget⟩ := applyMessageToTable_spec (hm message List.mem_cons_self) hvalid hfirst
    obtain ⟨hdone, hgets⟩ := ih (fun m hmem => hm m (List.mem_cons_of_mem _ hmem)) hmid hrest
    refine ⟨hdone, fun key => ?_⟩
    rw [hgets key, hget key, changesOf_cons]
    by_cases hkey : target.valueKey message.value = key
    · rw [if_pos hkey.symm, if_pos hkey, List.foldl_cons]
    · rw [if_neg (Ne.symm hkey), if_neg hkey]

/-! ### The net effect of the changes of a key -/

omit [DecidableEq V] in
theorem insertedRow_congr {value value' : OrdMap S (Option V)}
    (h : ∀ column, value.get? column = value'.get? column) :
    target.insertedRow value = target.insertedRow value' := by
  funext column
  rw [ApplyTarget.insertedRow, ApplyTarget.insertedRow, h column]

omit [DecidableEq V] in
theorem merged_congr {value value' : OrdMap S (Option V)}
    (h : ∀ column, value.get? column = value'.get? column) (old : Option (Row S (Option V))) :
    target.merged old value = target.merged old value' := by
  cases old with
  | none => exact insertedRow_congr h
  | some row => exact congrArg (target.excludedRow target.projected row) (insertedRow_congr h)

omit [DecidableEq V] in
/-- An upsert of the complete row leaves nothing of the upsert before it. -/
theorem merged_merged {first value : OrdMap S (Option V)} (hfirst : first.keys.Perm target.projected)
    (hvalue : value.keys.Perm target.projected) (hkey : target.valueKey first = target.valueKey value)
    (old : Option (Row S (Option V))) :
    target.merged (some (target.merged old first)) value = target.merged old value := by
  funext column
  cases old with
  | some row =>
    show target.excludedRow _ (target.excludedRow _ row _) _ column = target.excludedRow _ row _ column
    rw [excludedRow, excludedRow, excludedRow]
    split <;> rfl
  | none =>
    show target.excludedRow _ (target.insertedRow first) (target.insertedRow value) column =
      target.insertedRow value column
    rw [excludedRow]
    split
    · rfl
    · rename_i hcolumn
      by_cases hpk : column ∈ target.primaryKey
      · have hcarried : ∀ {v : OrdMap S (Option V)}, v.keys.Perm target.projected →
            target.primaryKey ⊆ v.keys := fun hv c hc => hv.mem_iff.mpr (target.primaryKey_sub hc)
        have hkeys : target.keyOf (target.insertedRow first) =
            target.keyOf (target.insertedRow value) := by
          rw [keyOf_insertedRow (hcarried hfirst), keyOf_insertedRow (hcarried hvalue), hkey]
        exact List.map_inj_left.mp hkeys column hpk
      · -- a column the stream does not carry has its default
        have hnot : column ∉ target.projected := fun h => hcolumn (mem_nonPkColumns.mpr ⟨h, hpk⟩)
        rw [insertedRow_of_not_mem hfirst hnot, insertedRow_of_not_mem hvalue hnot]

omit [DecidableEq V] in
/-- The net row of the upserts since the last delete is the last of them. -/
theorem get?_net {init : List (SyncChange S (Option V))} {message : SyncChange S (Option V)}
    (hinit : ∀ m ∈ init, target.WireChange m) (hm : target.WireChange message)
    (hop : message.operation = .upsert) (column : S) :
    (mergeValues (segmentAfterDelete init ++ [message])).get? column =
      message.value.get? column := by
  have hperm : ∀ m ∈ segmentAfterDelete init ++ [message], m.value.keys.Perm target.projected := by
    intro m hmem
    rcases List.mem_append.mp hmem with hmem | hmem
    · obtain ⟨hin, hmop⟩ := mem_segmentAfterDelete hmem
      exact (hinit m hin).full hmop
    · rw [List.mem_singleton.mp hmem]
      exact hm.full hop
  exact get?_mergeValues hperm column

/-- What the folded delete of a key leaves of its row. -/
def cleared (old : Option (Row S (Option V))) (ops : List (SyncChange S (Option V))) :
    Option (Row S (Option V)) :=
  if (lastDelete ops).isSome then none else old

omit [DecidableEq V] in
/-- The changes of a key come down to its folded delete and its folded upsert. -/
theorem foldl_rowAfter {ops : List (SyncChange S (Option V))} {key : RowKey V}
    (hops : ∀ m ∈ ops, target.WireChange m ∧ target.valueKey m.value = key)
    (old : Option (Row S (Option V))) :
    ops.foldl target.rowAfter old =
      (foldedUpsert ops).elim (cleared old ops) (fun u => target.rowAfter (cleared old ops) u) := by
  induction ops using List.reverseRecOn with
  | nil => rfl
  | append_singleton ops message ih =>
    have hinit : ∀ m ∈ ops, target.WireChange m ∧ target.valueKey m.value = key :=
      fun m hm => hops m (List.mem_append_left _ hm)
    obtain ⟨hwire, hkey⟩ := hops message (List.mem_append_right _ (List.mem_singleton_self _))
    rw [List.foldl_append, List.foldl_cons, List.foldl_nil, ih hinit]
    cases hop : message.operation with
    | delete =>
      rw [rowAfter_delete hop, foldedUpsert_append_delete hop, cleared, lastDelete_append, if_pos hop]
      rfl
    | upsert =>
      have hcleared : cleared old (ops ++ [message]) = cleared old ops := by
        have hnot : ¬ message.operation = .delete := by
          rw [hop]
          decide
        rw [cleared, lastDelete_append, if_neg hnot, cleared]
      have hnet := get?_net (fun m hm => (hinit m hm).1) hwire hop
      rw [foldedUpsert_append_upsert ops hop, hcleared, Option.elim_some, rowAfter_upsert hop,
        rowAfter_upsert rfl, merged_congr hnet]
      cases hfold : foldedUpsert ops with
      | none => rfl
      | some u =>
        -- an upsert follows an upsert
        obtain ⟨init, before, rfl, hbefore, rfl⟩ := foldedUpsert_eq_some hfold
        have hin : ∀ m ∈ init, target.WireChange m :=
          fun m hm => (hinit m (List.mem_append_left _ hm)).1
        obtain ⟨hwire', hkey'⟩ :=
          hinit before (List.mem_append_right _ (List.mem_singleton_self _))
        rw [Option.elim_some, rowAfter_upsert rfl, merged_congr (get?_net hin hwire' hbefore),
          merged_merged (hwire'.full hbefore) (hwire.full hop) (hkey'.trans hkey.symm)]

/-! ### The folded batch -/

section

variable {messages : List (SyncChange S (Option V))} (hwire : target.WireBatch messages)
include hwire

theorem filter_key {m : SyncChange S (Option V)} (hm : m ∈ messages) :
    (messages.filter fun x => x.key = m.key) = target.changesOf (target.valueKey m.value) messages :=
  List.filter_congr fun x hx => decide_eq_decide.mpr (hwire.key_iff x hx m hm)

/-- A key is among the folded deletes when one of its changes is a delete. -/
theorem mem_deleteKeys {key : RowKey V} :
    key ∈ (foldChangeBatch messages).deletes.map (fun m => target.valueKey m.value) ↔
      (lastDelete (target.changesOf key messages)).isSome := by
  rw [List.mem_map, Option.isSome_iff_exists]
  constructor
  · rintro ⟨m, hm, rfl⟩
    have hlast := mem_deletes.mp hm
    have hin := (List.mem_filter.mp (mem_of_lastDelete hlast)).1
    exact ⟨m, by rw [← filter_key hwire hin, hlast]⟩
  · rintro ⟨m, hlast⟩
    obtain ⟨hin, hkey⟩ := List.mem_filter.mp (mem_of_lastDelete hlast)
    have hkey := of_decide_eq_true hkey
    rw [← hkey, ← filter_key hwire hin] at hlast
    exact ⟨m, mem_deletes.mpr hlast, hkey⟩

/-- A folded upsert stands for the changes of its key. -/
theorem foldedUpsert_of_mem {u : SyncChange S (Option V)} (hu : u ∈ (foldChangeBatch messages).upserts) :
    u.value.keys.Perm target.projected ∧
      foldedUpsert (target.changesOf (target.valueKey u.value) messages) = some u ∧
      ∃ m ∈ messages, m.key = u.key ∧ target.valueKey m.value = target.valueKey u.value := by
  have hfold := mem_upserts.mp hu
  obtain ⟨init, m, hsplit, hop, hform⟩ := foldedUpsert_eq_some hfold
  have hall : ∀ x ∈ init ++ [m], x ∈ messages := fun x hx => by
    rw [← hsplit] at hx
    exact (List.mem_filter.mp hx).1
  have hm : m ∈ messages := hall m (List.mem_append_right _ (List.mem_singleton_self m))
  have hnet := @get?_net _ _ _ target _ _
    (fun x hx => hwire.change (hall x (List.mem_append_left _ hx))) (hwire.change hm) hop
  have hvalue : ∀ column, u.value.get? column = m.value.get? column := by
    rw [hform]
    exact hnet
  have hkey : target.valueKey m.value = target.valueKey u.value :=
    List.map_congr_left fun column _ => by rw [hvalue column]
  have hukey : m.key = u.key := by rw [hform]
  refine ⟨?_, ?_, m, hm, hukey, hkey⟩
  · have hnodup := (hwire.full m hm hop).nodup_iff.mp m.value.keys_nodup
    rw [List.perm_ext_iff_of_nodup u.value.keys_nodup hnodup]
    intro column
    rw [← (hwire.full m hm hop).mem_iff, OrdMap.mem_keys_iff, OrdMap.mem_keys_iff, hvalue column]
  · rw [← hkey, ← filter_key hwire hm, hukey, hfold]

theorem nodup_upsertKeys :
    ((foldChangeBatch messages).upserts.map fun u => target.valueKey u.value).Nodup := by
  have hnodup := nodup_upserts messages
  refine List.Nodup.map_on (fun u hu u' hu' heq => ?_) (List.Nodup.of_map _ hnodup)
  obtain ⟨-, -, m, hm, hkey, hvalue⟩ := foldedUpsert_of_mem hwire hu
  obtain ⟨-, -, m', hm', hkey', hvalue'⟩ := foldedUpsert_of_mem hwire hu'
  have hsame : u.key = u'.key := by
    rw [← hkey, ← hkey', hwire.key_iff m hm m' hm', hvalue, hvalue', heq]
  exact List.inj_on_of_nodup_map hnodup hu hu' hsame

/-- Without a folded upsert there is nothing to store under a key. -/
theorem foldedUpsert_eq_none {key : RowKey V}
    (h : key ∉ (foldChangeBatch messages).upserts.map fun u => target.valueKey u.value) :
    foldedUpsert (target.changesOf key messages) = none := by
  cases hfold : foldedUpsert (target.changesOf key messages) with
  | none => rfl
  | some u =>
    exfalso
    obtain ⟨init, m, hsplit, hop, hform⟩ := foldedUpsert_eq_some hfold
    have hmem : m ∈ target.changesOf key messages := by
      rw [hsplit]
      exact List.mem_append_right _ (List.mem_singleton_self m)
    obtain ⟨hm, hkey⟩ := List.mem_filter.mp hmem
    have hkey := of_decide_eq_true hkey
    have hukey : u.key = m.key := by rw [hform]
    rw [← hkey, ← filter_key hwire hm, ← hukey] at hfold
    have hu := mem_upserts.mpr hfold
    obtain ⟨-, -, m', hm', hkey', hvalue'⟩ := foldedUpsert_of_mem hwire hu
    refine h (List.mem_map.mpr ⟨u, hu, ?_⟩)
    rw [← hvalue', ← hkey, ← hwire.key_iff m' hm' m hm, hkey', hukey]

end

theorem get?_applyBulkDeletes (split : BatchSplit (SyncChange S (Option V)))
    (messages : List (SyncChange S (Option V))) (rows : Rows S V) (key : RowKey V) :
    (target.applyBulkDeletesToTable split messages rows).get? key =
      (rows.get? key).filter fun _ => !(messages.map fun m => target.valueKey m.value).contains key := by
  have hrun : ∀ (batches : List (List (SyncChange S (Option V)))) (rows : Rows S V),
      (batches.foldl (fun rows batch => rows.filter fun key _ =>
        !(batch.map fun m => target.valueKey m.value).contains key) rows).get? key =
      (rows.get? key).filter fun _ =>
        !(batches.flatten.map fun m => target.valueKey m.value).contains key := by
    intro batches
    induction batches with
    | nil =>
      intro rows
      show rows.get? key = (rows.get? key).filter _
      cases rows.get? key <;> rfl
    | cons batch batches ih =>
      intro rows
      have happend : ∀ keys keys' : List (RowKey V), (keys ++ keys').contains key =
          (keys.contains key || keys'.contains key) := by
        intro keys keys'
        rw [Bool.eq_iff_iff, Bool.or_eq_true, List.contains_iff_mem, List.contains_iff_mem,
          List.contains_iff_mem, List.mem_append]
      rw [List.foldl_cons, ih, OrdMap.get?_filter, List.flatten_cons, List.map_append, happend]
      cases rows.get? key with
      | none => rfl
      | some row =>
        cases (batch.map fun m => target.valueKey m.value).contains key <;> rfl
  rw [applyBulkDeletesToTable, hrun, split.flatten_cut]

/-- The folded deletes leave of each row what they leave of its key. -/
theorem get?_deleted {messages : List (SyncChange S (Option V))} (hwire : target.WireBatch messages)
    (split : BatchSplit (SyncChange S (Option V))) (rows : Rows S V) (key : RowKey V) :
    (target.applyBulkDeletesToTable split (foldChangeBatch messages).deletes rows).get? key =
      cleared (rows.get? key) (target.changesOf key messages) := by
  have hmem := @mem_deleteKeys _ _ _ _ _ _ hwire key
  rw [get?_applyBulkDeletes, cleared]
  by_cases hdelete : (lastDelete (target.changesOf key messages)).isSome
  · have hcontains := List.contains_iff_mem.mpr (hmem.mpr hdelete)
    rw [if_pos hdelete, hcontains]
    cases rows.get? key <;> rfl
  · have hcontains : ((foldChangeBatch messages).deletes.map fun m =>
        target.valueKey m.value).contains key = false := by
      rw [Bool.eq_false_iff, Ne, List.contains_iff_mem]
      exact fun h => hdelete (hmem.mp h)
    rw [if_neg hdelete, hcontains]
    cases rows.get? key <;> rfl

/-! ### The upserts of the fold -/

/-- Every unique index contains the primary key, or a unique index over columns of the primary
key alone. -/
def KeyedIndexes (target : LocalTable S V) : Prop :=
  ∀ index ∈ target.uniqueIndexes, ∃ part ∈ target.primaryKey :: target.uniqueIndexes,
    part ⊆ target.primaryKey ∧ part ⊆ index

omit [LinearOrder S] in
/-- A row of a valid table fits beside the rows that share their primary keys with its other rows. -/
theorem fits_of_valid (hindexes : target.KeyedIndexes) {rows final : Rows S V}
    (hfinal : target.Valid final) {key : RowKey V} {row : Row S (Option V)}
    (hrow : final.get? key = some row)
    (hothers : ∀ key' other, rows.get? key' = some other → key' ≠ key →
      ∃ other', final.get? key' = some other' ∧
        ∀ column ∈ target.primaryKey, other' column = other column) :
    target.Fits rows key row := by
  intro index hindex key' other hother hne hcollide
  obtain ⟨other', hother', hsame⟩ := hothers key' other hother hne
  obtain ⟨part, hpart, hpk, hsub⟩ := hindexes index hindex
  have hpartCollide : Collide part row other' := by
    intro column hcolumn
    rw [hsame column (hpk hcolumn)]
    exact hcollide column (hsub hcolumn)
  rcases List.mem_cons.mp hpart with rfl | hpart
  · -- the two rows have one primary key
    have hkeys : target.keyOf row = target.keyOf other' :=
      List.map_congr_left fun column hcolumn => (hpartCollide column hcolumn).2
    rw [hfinal.keyed key row hrow, hfinal.keyed key' other' hother'] at hkeys
    exact hne hkeys.symm
  · exact hfinal.unique part hpart key row key' other' hrow hother' (Ne.symm hne) hpartCollide

/-- Upserts of distinct keys lead to a valid table when it is what they leave. -/
theorem foldChecked_upsertRow (hindexes : target.KeyedIndexes) {final : Rows S V}
    (hfinal : target.Valid final) {columns : List S} (hcolumns : columns.Perm target.projected)
    {us : List (SyncChange S (Option V))} {rows : Rows S V}
    (hperm : ∀ u ∈ us, u.value.keys.Perm target.projected)
    (hnodup : (us.map fun u => target.valueKey u.value).Nodup)
    (hin : ∀ u ∈ us, final.get? (target.valueKey u.value) =
      some (target.merged (rows.get? (target.valueKey u.value)) u.value))
    (hout : ∀ key, key ∉ us.map (fun u => target.valueKey u.value) →
      final.get? key = rows.get? key) :
    ∃ rows', foldChecked (fun rows u => target.upsertRow columns rows u.value) rows us = .ok rows' ∧
      ∀ key, rows'.get? key = final.get? key := by
  induction us generalizing rows with
  | nil => exact ⟨rows, rfl, fun key => (hout key List.not_mem_nil).symm⟩
  | cons u us ih =>
    rw [List.map_cons, List.nodup_cons] at hnodup
    have hcarried : target.primaryKey ⊆ u.value.keys :=
      fun c hc => (hperm u List.mem_cons_self).mem_iff.mpr (target.primaryKey_sub hc)
    have hfits : target.Fits rows (target.valueKey u.value)
        (target.merged (rows.get? (target.valueKey u.value)) u.value) := by
      refine fits_of_valid hindexes hfinal (hin u List.mem_cons_self) fun key' other hother hne => ?_
      by_cases hkey : key' ∈ (u :: us).map fun u => target.valueKey u.value
      · -- an upsert to come keeps the primary key of its row
        obtain ⟨u', hu', rfl⟩ := List.mem_map.mp hkey
        refine ⟨_, hin u' hu', fun column hcolumn => ?_⟩
        rw [hother]
        exact excludedRow_of_mem hcolumn _ _
      · exact ⟨other, by rw [hout key' hkey, hother], fun _ _ => rfl⟩
    obtain ⟨mid, hmid⟩ := upsertRow_ok hcolumns hcarried hfits
    have hget := (upserted_of_ok hcolumns hcarried hmid).get
    rw [foldChecked_cons, hmid, ok_bind]
    refine ih (fun u' hu' => hperm u' (List.mem_cons_of_mem _ hu')) hnodup.2 ?_ ?_
    · intro u' hu'
      have hne : target.valueKey u'.value ≠ target.valueKey u.value := fun heq =>
        hnodup.1 (heq ▸ List.mem_map_of_mem hu')
      rw [hin u' (List.mem_cons_of_mem _ hu'), hget, if_neg hne]
    · intro key hkey
      rw [hget]
      split
      · rename_i heq
        rw [heq, hin u List.mem_cons_self]
      · rename_i hne
        refine hout key fun hmem => ?_
        rcases List.mem_cons.mp hmem with heq | hmem
        · exact hne heq
        · exact hkey hmem

theorem foldChecked_append {α β ε : Type} {f : β → α → Except ε β} (acc : β) (xs ys : List α) :
    foldChecked f acc (xs ++ ys) = foldChecked f acc xs >>= fun acc' => foldChecked f acc' ys := by
  induction xs generalizing acc with
  | nil => rfl
  | cons x xs ih =>
    rw [List.cons_append, foldChecked_cons, foldChecked_cons, bind_assoc]
    exact congrArg _ (funext fun acc' => ih acc')

/-- Where no row is met twice, the statements of a batch run its rows one after the other. -/
theorem foldChecked_upsertStatement {columns : List S} {batches : List (List (SyncChange S (Option V)))}
    (hcolumns : ∀ u ∈ batches.flatten, u.value.keys ⊆ target.columns)
    (hnodup : (batches.flatten.map fun u => target.valueKey u.value).Nodup) (rows : Rows S V) :
    foldChecked (target.upsertStatement columns) rows batches =
      foldChecked (fun rows u => target.upsertRow columns rows u.value) rows batches.flatten := by
  induction batches generalizing rows with
  | nil => rfl
  | cons batch batches ih =>
    rw [List.flatten_cons] at hcolumns hnodup ⊢
    rw [List.map_append, List.nodup_append] at hnodup
    have hdriver : toDriverRow target.toApplyTarget batch = .ok () := by
      refine if_pos ?_
      simp only [List.all_eq_true, List.contains_iff_mem]
      exact fun u hu column hcolumn => hcolumns u (List.mem_append_left _ hu) hcolumn
    have hbatch : ∀ rows, target.upsertStatement columns rows batch =
        foldChecked (fun rows u => target.upsertRow columns rows u.value) rows batch := by
      intro rows
      rw [upsertStatement, hdriver, throwIf, if_neg fun h => h.2 hnodup.1]
      rfl
    rw [foldChecked_cons, foldChecked_append, hbatch]
    exact congrArg _ (funext fun rows =>
      ih (fun u hu => hcolumns u (List.mem_append_right _ hu)) hnodup.2.1 rows)

/-- The fold is faithful to the changes one by one. -/
structure FoldsFaithfully (target : LocalTable S V) : Prop where
  same : ∀ rows, target.Valid rows → ∀ messages, target.WireBatch messages → ∀ rows',
    target.applyEach messages rows = .ok rows' → ∀ deleteSplit upsertSplit,
      ∃ rows'', target.applyFolded deleteSplit upsertSplit messages rows = .ok rows'' ∧
        ∀ key, rows''.get? key = rows'.get? key
  deletesOnce : ∀ messages, target.WireBatch messages →
    ((foldChangeBatch messages).deletes.map SyncChange.key).Nodup
  upsertsOnce : ∀ messages, target.WireBatch messages →
    ((foldChangeBatch messages).upserts.map SyncChange.key).Nodup

theorem applyFolded_same (hindexes : target.KeyedIndexes) {rows rows' : Rows S V}
    (hvalid : target.Valid rows) {messages : List (SyncChange S (Option V))}
    (hwire : target.WireBatch messages) (h : target.applyEach messages rows = .ok rows')
    (deleteSplit upsertSplit : BatchSplit (SyncChange S (Option V))) :
    ∃ rows'', target.applyFolded deleteSplit upsertSplit messages rows = .ok rows'' ∧
      ∀ key, rows''.get? key = rows'.get? key := by
  obtain ⟨hfinal, heach⟩ := applyEach_spec (fun m hm => hwire.change hm) hvalid h
  have hnet : ∀ key, rows'.get? key = (foldedUpsert (target.changesOf key messages)).elim
      (cleared (rows.get? key) (target.changesOf key messages))
      (fun u => target.rowAfter (cleared (rows.get? key) (target.changesOf key messages)) u) := by
    intro key
    rw [heach key]
    refine @foldl_rowAfter _ _ _ _ _ key (fun m hm => ?_) (rows.get? key)
    obtain ⟨hin, hkey⟩ := List.mem_filter.mp hm
    exact ⟨hwire.change hin, of_decide_eq_true hkey⟩
  have hdeleted := get?_deleted hwire deleteSplit rows
  have hnodup := nodup_upsertKeys hwire
  have hout : ∀ key, key ∉ (foldChangeBatch messages).upserts.map (fun u => target.valueKey u.value) →
      rows'.get? key = (target.applyBulkDeletesToTable deleteSplit
        (foldChangeBatch messages).deletes rows).get? key := by
    intro key hkey
    rw [hnet key, foldedUpsert_eq_none hwire hkey, hdeleted key]
    rfl
  have hin : ∀ u ∈ (foldChangeBatch messages).upserts, rows'.get? (target.valueKey u.value) =
      some (target.merged ((target.applyBulkDeletesToTable deleteSplit
        (foldChangeBatch messages).deletes rows).get? (target.valueKey u.value)) u.value) := by
    intro u hu
    obtain ⟨-, hfold, -⟩ := foldedUpsert_of_mem hwire hu
    rw [hnet, hfold, hdeleted, Option.elim_some, rowAfter_upsert (operation_of_mem_upserts hu)]
  show ∃ rows'', target.applyUpsertsToTable upsertSplit (foldChangeBatch messages).upserts _ = _ ∧ _
  have hperm : ∀ u ∈ (foldChangeBatch messages).upserts, u.value.keys.Perm target.projected :=
    fun u hu => (foldedUpsert_of_mem hwire hu).1
  cases hus : (foldChangeBatch messages).upserts with
  | nil =>
    rw [hus] at hout
    exact ⟨_, rfl, fun key => (hout key List.not_mem_nil).symm⟩
  | cons first rest =>
    rw [hus] at hin hout hnodup hperm
    have huniform := assertUniformColumnSet_of_perm (hperm first List.mem_cons_self) hperm
    obtain ⟨rows'', hrun, hget⟩ := foldChecked_upsertRow hindexes hfinal
      (hperm first List.mem_cons_self) hperm hnodup hin hout
    refine ⟨rows'', ?_, hget⟩
    have hflat := upsertSplit.flatten_cut (first :: rest)
    rw [applyUpsertsToTable, huniform]
    show foldChecked _ _ _ = _
    rw [foldChecked_upsertStatement, hflat, hrun]
    · intro u hu
      rw [hflat] at hu
      exact fun c hc => target.projected_sub ((hperm u hu).mem_iff.mp hc)
    · rw [hflat]
      exact hnodup

end LocalTable

end Circuits
