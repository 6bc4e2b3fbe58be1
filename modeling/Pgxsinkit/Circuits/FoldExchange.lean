/-
Which tables the fold is faithful on.

The fold stores the rows of a batch in the order in which their keys first appear.  A row that
leaves and comes back is then stored where it left, before a row that gave way to it: with a
unique index that does not speak of the primary key the statement fails, though the changes one by
one went through (`applyFolded_exchange`).  `foldsFaithfully_iff` says that nothing else goes wrong.
-/
import Pgxsinkit.Circuits.FoldLocal

namespace Circuits

open Checked

variable {S V : Type} [LinearOrder S] [DecidableEq V] {target : LocalTable S V}

namespace LocalTable

/-! ### An index that breaks the fold -/

/-- A value over some columns. -/
def valueOn (cols : List S) (hcols : cols.Nodup) (f : S → V) : OrdMap S (Option V) where
  entries := cols.map fun column => (column, some (f column))
  nodup := by rwa [List.map_map, show Prod.fst ∘ _ = (id : S → S) from rfl, List.map_id]

omit [DecidableEq V] in
theorem get?_valueOn {cols : List S} (hcols : cols.Nodup) (f : S → V) {column : S}
    (h : column ∈ cols) : (valueOn cols hcols f).get? column = some (some (f column)) :=
  OrdMap.get?_eq_some_iff.mpr (List.mem_map.mpr ⟨column, h, rfl⟩)

omit [LinearOrder S] [DecidableEq V] in
theorem keys_valueOn {cols : List S} (hcols : cols.Nodup) (f : S → V) :
    (valueOn cols hcols f).keys = cols := by
  rw [OrdMap.keys, valueOn, List.map_map]
  exact List.map_id _

/-- The whole batch in one statement. -/
def BatchSplit.whole {α : Type} : BatchSplit α where
  cut batch := [batch]
  flatten_cut batch := by rw [List.flatten_singleton]

/-- A unique index that shows the fold: `p` is outside of it, `c` outside the primary key, and no
unique index lies in both. -/
structure Breaks (target : LocalTable S V) (index : List S) (p c : S) : Prop where
  mem : index ∈ target.uniqueIndexes
  key : p ∈ target.primaryKey
  key_not : p ∉ index
  column : c ∈ index
  column_not : c ∉ target.primaryKey
  noPart : ∀ part ∈ target.uniqueIndexes, ¬ (part ⊆ target.primaryKey ∧ part ⊆ index)

omit [DecidableEq V] in
theorem exists_breaks (h : ¬ target.KeyedIndexes) : ∃ index p c, target.Breaks index p c := by
  have hsubset : ∀ {as bs : List S}, ¬ as ⊆ bs → ∃ a ∈ as, a ∉ bs := by
    intro as bs hnot
    by_contra hno
    push Not at hno
    exact hnot hno
  unfold KeyedIndexes at h
  push Not at h
  obtain ⟨index, hindex, hpart⟩ := h
  obtain ⟨p, hp, hpnot⟩ := hsubset (hpart target.primaryKey List.mem_cons_self (List.Subset.refl _))
  have hself : ¬ index ⊆ target.primaryKey := fun hsub =>
    hpart index (List.mem_cons_of_mem _ hindex) hsub (List.Subset.refl _)
  obtain ⟨c, hc, hcnot⟩ := hsubset hself
  exact ⟨index, p, c, hindex, hp, hpnot, hc, hcnot,
    fun part hmem hboth => hpart part (List.mem_cons_of_mem _ hmem) hboth.1 hboth.2⟩

theorem lawfulBEq_columns : LawfulBEq S := inferInstance

attribute [local instance] lawfulBEq_columns

/-- The cells of the row that leaves and comes back: in the index it is the row that was there. -/
def takenCell (target : LocalTable S V) (index : List S) (x y : V) (column : S) : V :=
  if column ∈ target.primaryKey ∧ column ∉ index then x else y

/-- The row that was there, with nothing of its own outside the primary key. -/
def yieldedCell (target : LocalTable S V) (x y : V) (column : S) : V :=
  if column ∈ target.primaryKey then y else x

def leaving (target : LocalTable S V) (index : List S) (x y : V) (p : S) :
    SyncChange S (Option V) :=
  ⟨p, valueOn (target.projected.filter fun column => column ∈ target.primaryKey)
    (target.projected_nodup.filter _) (target.takenCell index x y), .delete⟩

def yielding (target : LocalTable S V) (x y : V) (c : S) : SyncChange S (Option V) :=
  ⟨c, valueOn target.projected target.projected_nodup (target.yieldedCell x y), .upsert⟩

def returning (target : LocalTable S V) (index : List S) (x y : V) (p : S) :
    SyncChange S (Option V) :=
  ⟨p, valueOn target.projected target.projected_nodup (target.takenCell index x y), .upsert⟩

/-- A row leaves, the one in the table gives way, and the first comes back in its place. -/
def exchange (target : LocalTable S V) (index : List S) (x y : V) (p c : S) :
    List (SyncChange S (Option V)) :=
  [target.leaving index x y p, target.yielding x y c, target.returning index x y p]

/-- The primary keys of the two rows. -/
def takenKey (target : LocalTable S V) (index : List S) (x y : V) : RowKey V :=
  target.primaryKey.map fun column => some (target.takenCell index x y column)

def loneKey (target : LocalTable S V) (y : V) : RowKey V := target.primaryKey.map fun _ => some y

/-- The table before the exchange. -/
def lone (target : LocalTable S V) (y : V) : Rows S V :=
  OrdMap.empty.set (target.loneKey y) fun _ => some y

section

variable {x y : V} {index : List S} {p c : S}

omit [DecidableEq V] in
theorem valueKey_valueOn {cols : List S} (hcols : cols.Nodup) (f : S → V)
    (h : target.primaryKey ⊆ cols) :
    target.valueKey (valueOn cols hcols f) = target.primaryKey.map fun column => some (f column) := by
  refine List.map_congr_left fun column hcolumn => ?_
  rw [get?_valueOn hcols f (h hcolumn), Option.getD_some]

variable (target) in
omit [DecidableEq V] in
theorem primaryKey_sub_filter :
    target.primaryKey ⊆ target.projected.filter fun column => column ∈ target.primaryKey :=
  fun _ hcolumn => List.mem_filter.mpr ⟨target.primaryKey_sub hcolumn, decide_eq_true hcolumn⟩

omit [DecidableEq V] in
theorem valueKey_leaving :
    target.valueKey (target.leaving index x y p).value = target.takenKey index x y :=
  valueKey_valueOn (target.projected_nodup.filter _) _ target.primaryKey_sub_filter

omit [DecidableEq V] in
theorem valueKey_returning :
    target.valueKey (target.returning index x y p).value = target.takenKey index x y :=
  valueKey_valueOn target.projected_nodup _ target.primaryKey_sub

omit [DecidableEq V] in
theorem valueKey_yielding : target.valueKey (target.yielding x y c).value = target.loneKey y := by
  rw [yielding, valueKey_valueOn target.projected_nodup _ target.primaryKey_sub]
  refine List.map_congr_left fun column hcolumn => ?_
  rw [yieldedCell, if_pos hcolumn]

omit [DecidableEq V] in
theorem keys_yielding : (target.yielding x y c).value.keys = target.projected :=
  keys_valueOn target.projected_nodup _

omit [DecidableEq V] in
theorem keys_returning : (target.returning index x y p).value.keys = target.projected :=
  keys_valueOn target.projected_nodup _

section

variable (hbreaks : target.Breaks index p c) (hxy : x ≠ y)
include hbreaks

omit [DecidableEq V] [LinearOrder S] in
theorem Breaks.ne : p ≠ c := fun heq => hbreaks.key_not (heq ▸ hbreaks.column)

include hxy

omit [DecidableEq V] in
theorem takenKey_ne : target.takenKey index x y ≠ target.loneKey y := by
  intro heq
  have hcell := List.map_inj_left.mp heq p hbreaks.key
  rw [takenCell, if_pos ⟨hbreaks.key, hbreaks.key_not⟩] at hcell
  exact hxy (Option.some.inj hcell)

omit [DecidableEq V] in
theorem wireBatch_exchange : target.WireBatch (target.exchange index x y p c) := by
  have hmem : ∀ m ∈ target.exchange index x y p c, m = target.leaving index x y p ∨
      m = target.yielding x y c ∨ m = target.returning index x y p := by
    intro m hm
    rcases List.mem_cons.mp hm with hm | hm
    · exact .inl hm
    · exact .inr (List.mem_pair.mp hm)
  have hnone : ∀ f : S → V, none ∉ target.primaryKey.map fun column => some (f column) := by
    intro f hin
    obtain ⟨_, -, hcell⟩ := List.mem_map.mp hin
    cases hcell
  have hne := takenKey_ne hbreaks hxy
  refine ⟨fun m hm hop => ?_, fun m hm => ?_, fun m hm => ?_, fun m hm m' hm' => ?_⟩
  · rcases hmem m hm with rfl | rfl | rfl
    · cases hop
    · rw [keys_yielding]
    · rw [keys_returning]
  · rcases hmem m hm with rfl | rfl | rfl
    · rw [leaving, keys_valueOn]
      exact target.primaryKey_sub_filter
    · rw [keys_yielding]
      exact target.primaryKey_sub
    · rw [keys_returning]
      exact target.primaryKey_sub
  · rcases hmem m hm with rfl | rfl | rfl
    · rw [valueKey_leaving]
      exact hnone _
    · rw [valueKey_yielding]
      exact hnone _
    · rw [valueKey_returning]
      exact hnone _
  · rcases hmem m hm with rfl | rfl | rfl <;> rcases hmem m' hm' with rfl | rfl | rfl <;>
      simp only [valueKey_leaving, valueKey_yielding, valueKey_returning, hne, hne.symm, iff_true,
        iff_false]
    all_goals first
      | exact hbreaks.ne
      | exact hbreaks.ne.symm
      | rfl

end

/-! ### The exchange, one by one -/

omit [LinearOrder S] in
theorem get?_lone (key : RowKey V) :
    (target.lone y).get? key = if key = target.loneKey y then some fun _ => some y else none := by
  rw [lone, OrdMap.get?_set]
  rfl

omit [LinearOrder S] in
theorem valid_lone : target.Valid (target.lone y) := by
  have hkey : ∀ {key row}, (target.lone y).get? key = some row →
      key = target.loneKey y ∧ row = fun _ => some y := by
    intro key row hget
    rw [get?_lone] at hget
    split at hget
    · exact ⟨‹_›, (Option.some.inj hget).symm⟩
    · cases hget
  constructor
  · intro key row hget
    obtain ⟨rfl, rfl⟩ := hkey hget
    rfl
  · intro _ _ key row key' row' hget hget' hne
    exact absurd ((hkey hget).1.trans (hkey hget').1.symm) hne

omit [DecidableEq V] in
theorem insertedRow_valueOn (f : S → V) {column : S} (h : column ∈ target.projected) :
    target.insertedRow (valueOn target.projected target.projected_nodup f) column =
      some (f column) := by
  rw [ApplyTarget.insertedRow, get?_valueOn target.projected_nodup f h, Option.getD_some]

omit [DecidableEq V] in
/-- The row in the table, after it gave way. -/
theorem merged_yielding {column : S} (h : column ∈ target.projected) :
    target.merged (some fun _ => some y) (target.yielding x y c).value column =
      some (target.yieldedCell x y column) := by
  show target.excludedRow target.projected (fun _ => some y)
    (target.insertedRow (target.yielding x y c).value) column = some (target.yieldedCell x y column)
  rw [excludedRow, yielding, insertedRow_valueOn _ h]
  split
  · rfl
  · rename_i hnot
    have hpk : column ∈ target.primaryKey := by
      by_contra hcolumn
      exact hnot (mem_nonPkColumns.mpr ⟨h, hcolumn⟩)
    rw [yieldedCell, if_pos hpk]

omit [DecidableEq V] in
/-- The two rows agree nowhere but on the columns of the primary key that are in the index. -/
theorem mem_of_cells_eq (hxy : x ≠ y) {column : S}
    (h : target.takenCell index x y column = target.yieldedCell x y column) :
    column ∈ target.primaryKey ∧ column ∈ index := by
  rw [takenCell, yieldedCell] at h
  by_cases hpk : column ∈ target.primaryKey
  · refine ⟨hpk, ?_⟩
    by_contra hnot
    rw [if_pos ⟨hpk, hnot⟩, if_pos hpk] at h
    exact hxy h
  · rw [if_neg fun hboth => hpk hboth.1, if_neg hpk] at h
    exact absurd h.symm hxy

/-- An upsert of the stream goes through when its row fits. -/
theorem applyMessageToTable_ok {rows : Rows S V} {message : SyncChange S (Option V)}
    (hop : message.operation = .upsert) (hkeys : message.value.keys = target.projected)
    (hfits : target.Fits rows (target.valueKey message.value)
      (target.merged (rows.get? (target.valueKey message.value)) message.value)) :
    ∃ rows', target.applyMessageToTable rows message = .ok rows' := by
  have hdriver : toDriverRow target.toApplyTarget [message] = .ok () := by
    refine if_pos ?_
    rw [List.all_cons, List.all_nil, Bool.and_true, hkeys, List.all_eq_true]
    exact fun column hcolumn => List.contains_iff_mem.mpr (target.projected_sub hcolumn)
  obtain ⟨rows', hrows'⟩ := @upsertRow_ok _ _ _ _ target message.value.keys rows message.value
    (hkeys ▸ List.Perm.refl _) (hkeys ▸ target.primaryKey_sub) hfits
  refine ⟨rows', ?_⟩
  rw [applyMessageToTable, hop, hdriver]
  exact hrows'

theorem applyEach_exchange (hbreaks : target.Breaks index p c) (hxy : x ≠ y) :
    ∃ rows', target.applyEach (target.exchange index x y p c) (target.lone y) = .ok rows' := by
  have hwire := wireBatch_exchange hbreaks hxy
  have hne := takenKey_ne hbreaks hxy
  have hmem₁ : target.leaving index x y p ∈ target.exchange index x y p c := List.mem_cons_self
  have hmem₂ : target.yielding x y c ∈ target.exchange index x y p c :=
    List.mem_cons_of_mem _ List.mem_cons_self
  -- there is nothing to delete
  obtain ⟨rows₁, h₁⟩ : ∃ rows₁, target.applyMessageToTable (target.lone y)
      (target.leaving index x y p) = .ok rows₁ := ⟨_, rfl⟩
  obtain ⟨hvalid₁, hget₁⟩ := applyMessageToTable_spec (hwire.change hmem₁) valid_lone h₁
  have hlone₁ : ∀ key, rows₁.get? key = (target.lone y).get? key := by
    intro key
    rw [hget₁, valueKey_leaving]
    split
    · rename_i heq
      rw [heq, get?_lone, if_neg hne]
      exact rowAfter_delete rfl _
    · rfl
  -- the row in the table is alone
  obtain ⟨rows₂, h₂⟩ := @applyMessageToTable_ok _ _ _ _ target rows₁ (target.yielding x y c) rfl
    keys_yielding (fun J _ key' other hother hother' => by
      rw [hlone₁, get?_lone, if_neg (valueKey_yielding (c := c) ▸ hother')] at hother
      cases hother)
  obtain ⟨hvalid₂, hget₂⟩ := applyMessageToTable_spec (hwire.change hmem₂) hvalid₁ h₂
  rw [valueKey_yielding] at hget₂
  have hfits : target.Fits rows₂ (target.valueKey (target.returning index x y p).value)
      (target.merged (rows₂.get? (target.valueKey (target.returning index x y p).value))
        (target.returning index x y p).value) := by
    rw [valueKey_returning, hget₂, if_neg hne, hlone₁, get?_lone, if_neg hne]
    intro J hJ key' other hother hkey' hcollide
    rw [hget₂, hlone₁, get?_lone] at hother
    split at hother
    · rename_i heq
      rw [rowAfter_upsert rfl] at hother
      obtain rfl := Option.some.inj hother
      have hboth : ∀ column ∈ J, column ∈ target.primaryKey ∧ column ∈ index := by
        intro column hcolumn
        have hprojected := target.indexes_sub J hJ hcolumn
        have heqs := (hcollide column hcolumn).2
        rw [merged_yielding hprojected] at heqs
        exact mem_of_cells_eq hxy (Option.some.inj ((insertedRow_valueOn _ hprojected).symm.trans heqs))
      exact hbreaks.noPart J hJ ⟨fun column h => (hboth column h).1, fun column h => (hboth column h).2⟩
    · cases hother
  obtain ⟨rows₃, h₃⟩ := applyMessageToTable_ok rfl keys_returning hfits
  refine ⟨rows₃, ?_⟩
  rw [applyEach, exchange, foldChecked_cons, h₁, ok_bind, foldChecked_cons, h₂, ok_bind,
    foldChecked_cons, h₃, ok_bind, foldChecked_nil]

/-! ### The exchange, folded -/

omit [DecidableEq V] in
/-- The fold puts the row that comes back where it left. -/
theorem foldChangeBatch_exchange (hne : p ≠ c) :
    (foldChangeBatch (target.exchange index x y p c)).deletes = [target.leaving index x y p] ∧
      (foldChangeBatch (target.exchange index x y p c)).upserts =
        [⟨p, mergeValues [target.returning index x y p], .upsert⟩,
          ⟨c, mergeValues [target.yielding x y c], .upsert⟩] := by
  have hgroups : (groupByKey (target.exchange index x y p c)).entries =
      [(p, [target.leaving index x y p, target.returning index x y p]),
        (c, [target.yielding x y c])] := by
    have hkeys : (target.leaving index x y p).key = p ∧ (target.yielding x y c).key = c ∧
        (target.returning index x y p).key = p := ⟨rfl, rfl, rfl⟩
    simp [groupByKey, exchange, hkeys, hne, OrdMap.set, OrdMap.setEntries, OrdMap.get?,
      OrdMap.lookup_cons_if, hne.symm, OrdMap.empty]
  rw [foldChangeBatch_eq, hgroups]
  exact ⟨rfl, rfl⟩

/-- The folded exchange meets the row it takes the place of. -/
theorem applyFolded_exchange (hbreaks : target.Breaks index p c) (hxy : x ≠ y) (rows' : Rows S V) :
    target.applyFolded BatchSplit.whole BatchSplit.whole (target.exchange index x y p c)
      (target.lone y) ≠ .ok rows' := by
  intro h
  have hne := takenKey_ne hbreaks hxy
  obtain ⟨hdeletes, hupserts⟩ := @foldChangeBatch_exchange _ _ _ target x y index p c hbreaks.ne
  have hlone : ∀ key, (target.applyBulkDeletesToTable BatchSplit.whole
      [target.leaving index x y p] (target.lone y)).get? key = (target.lone y).get? key := by
    intro key
    rw [get?_applyBulkDeletes, get?_lone, List.map_singleton, valueKey_leaving]
    split
    · rename_i heq
      have hnot : [target.takenKey index x y].contains key = false := by
        rw [Bool.eq_false_iff, Ne, List.contains_iff_mem, List.mem_singleton, heq]
        exact hne.symm
      rw [hnot]
      rfl
    · rfl
  rw [applyFolded, hdeletes, hupserts] at h
  obtain ⟨-, -, hrun⟩ := bind_eq_ok.mp h
  obtain ⟨_, hstatement, -⟩ := bind_eq_ok.mp hrun
  obtain ⟨-, -, hstatement⟩ := bind_eq_ok.mp hstatement
  obtain ⟨-, -, hrows⟩ := bind_eq_ok.mp hstatement
  obtain ⟨_, hfirst, -⟩ := bind_eq_ok.mp hrows
  have hfull : ∀ m ∈ [] ++ [target.returning index x y p], m.value.keys.Perm target.projected := by
    intro m hm
    rw [List.mem_singleton.mp hm, keys_returning]
  have hrow : target.insertedRow (mergeValues [target.returning index x y p]) =
      target.insertedRow (target.returning index x y p).value :=
    insertedRow_mergeValues target.toApplyTarget hfull
  have hkey : target.keyOf (target.insertedRow (target.returning index x y p).value) =
      target.takenKey index x y := by
    rw [keyOf_insertedRow (by rw [keys_returning]; exact target.primaryKey_sub),
      valueKey_returning]
  simp only [upsertRow, hrow, hkey, hlone, get?_lone, if_neg hne] at hfirst
  obtain ⟨hfits, -⟩ := store_eq_ok.mp hfirst
  have hheld : (target.applyBulkDeletesToTable BatchSplit.whole [target.leaving index x y p]
      (target.lone y)).get? (target.loneKey y) = some fun _ => some y := by
    rw [hlone, get?_lone, if_pos rfl]
  refine hfits index hbreaks.mem _ _ hheld hne.symm fun column hcolumn => ?_
  have hprojected := target.indexes_sub index hbreaks.mem hcolumn
  have hcell : target.takenCell index x y column = y := if_neg fun hboth => hboth.2 hcolumn
  rw [returning, insertedRow_valueOn _ hprojected, hcell]
  exact ⟨Option.some_ne_none y, rfl⟩

end

/-- Without keyed indexes the fold fails where the changes one by one do not. -/
theorem keyedIndexes_of_foldsFaithfully [Nontrivial V] (h : target.FoldsFaithfully) :
    target.KeyedIndexes := by
  by_contra hnot
  obtain ⟨index, p, c, hbreaks⟩ := exists_breaks hnot
  obtain ⟨x, y, hxy⟩ := exists_pair_ne V
  obtain ⟨rows', heach⟩ := applyEach_exchange hbreaks hxy
  obtain ⟨rows'', hfolded, -⟩ := h.same _ valid_lone _ (wireBatch_exchange hbreaks hxy) _ heach
    BatchSplit.whole BatchSplit.whole
  exact applyFolded_exchange hbreaks hxy rows'' hfolded

/-- The folded batch leaves what the changes one by one leave, for every batch, table state and
batch split, exactly when every unique index contains the primary key, or a unique index over
columns of the primary key alone. -/
theorem foldsFaithfully_iff [Nontrivial V] : target.FoldsFaithfully ↔ target.KeyedIndexes :=
  ⟨keyedIndexes_of_foldsFaithfully, fun hindexes =>
    { same := fun _ hvalid _ hwire _ h deleteSplit upsertSplit =>
        applyFolded_same hindexes hvalid hwire h deleteSplit upsertSplit
      deletesOnce := fun messages _ => nodup_deletes messages
      upsertsOnce := fun messages _ => nodup_upserts messages }⟩

/-- A table `(id, slot)` with a unique index. -/
def slots (index : List String) (h : index ⊆ ["id", "slot"]) : LocalTable String ℕ where
  columns := ["id", "slot"]
  columnDefault _ := none
  applyMode := .upsert
  primaryKey := ["id"]
  projected := ["id", "slot"]
  uniqueIndexes := [index]
  primaryKey_ne := List.cons_ne_nil _ _
  projected_nodup := by decide
  projected_sub := List.Subset.refl _
  primaryKey_sub := by decide
  indexes_sub index' hindex' := List.mem_singleton.mp hindex' ▸ h

theorem slots_foldsFaithfully :
    (slots ["slot", "id"] (by decide)).FoldsFaithfully :=
  foldsFaithfully_iff.mpr fun _ hindex =>
    ⟨["id"], List.mem_cons_self, List.Subset.refl _, List.mem_singleton.mp hindex ▸ by decide⟩

def slotOnce : LocalTable String ℕ := slots ["slot"] (by decide)

/-- The table holds `(2, 2)`; the batch deletes 1, upserts `(2, 1)` and then `(1, 2)`. -/
theorem slotOnce_fold_fails :
    slotOnce.Valid (slotOnce.lone 2) ∧
      slotOnce.WireBatch (slotOnce.exchange ["slot"] 1 2 "id" "slot") ∧
      (∃ rows', slotOnce.applyEach (slotOnce.exchange ["slot"] 1 2 "id" "slot")
        (slotOnce.lone 2) = .ok rows') ∧
      ∀ rows', slotOnce.applyFolded BatchSplit.whole BatchSplit.whole
        (slotOnce.exchange ["slot"] 1 2 "id" "slot") (slotOnce.lone 2) ≠ .ok rows' := by
  have hbreaks : slotOnce.Breaks ["slot"] "id" "slot" := by
    refine ⟨List.mem_cons_self, List.mem_cons_self, by decide, List.mem_cons_self, by decide, ?_⟩
    rintro part hpart ⟨hkey, -⟩
    rw [List.mem_singleton.mp hpart] at hkey
    exact absurd (hkey List.mem_cons_self) (by decide)
  have hne : (1 : ℕ) ≠ 2 := by decide
  exact ⟨valid_lone, wireBatch_exchange hbreaks hne, applyEach_exchange hbreaks hne,
    applyFolded_exchange hbreaks hne⟩

end LocalTable

end Circuits
