/-
What the appliers do to a table, in terms of the last change of each key.

Row-by-row application leaves under a key what the last change of that key says
(`applyOrdered_apply`).  Every other way of applying a batch is compared with it there:
the fold followed by one bulk DELETE and one bulk upsert (`applyFolded_eq_ok`), and the
bulk load of a run of upserts onto keys the table does not hold (`insertRows_eq_ok`).
-/
import Pgxsinkit.Circuits.Change

namespace Circuits

open Checked

variable {S V : Type} [LinearOrder S]

/-! ### The last change of a key -/

def lastChange (key : S) (changes : List (SyncChange S V)) : Option (SyncChange S V) :=
  (changes.filter fun change => change.key = key).getLast?

/-- What a change leaves under its key: the row of an upsert, nothing for a delete. -/
def rowOf (target : ApplyTarget S V) (change : SyncChange S V) : Option (Row S V) :=
  match change.operation with
  | .upsert => some (target.insertedRow change.value)
  | .delete => none

/-- What the changes leave under the key, `none` when none of them is about it. -/
def netRow (target : ApplyTarget S V) (key : S) (changes : List (SyncChange S V)) :
    Option (Option (Row S V)) :=
  (lastChange key changes).map (rowOf target)

@[simp] theorem lastChange_nil (key : S) : lastChange key ([] : List (SyncChange S V)) = none :=
  rfl

theorem lastChange_append (key : S) (xs ys : List (SyncChange S V)) :
    lastChange key (xs ++ ys) = (lastChange key ys).or (lastChange key xs) := by
  rw [lastChange, List.filter_append, List.getLast?_append]
  rfl

theorem lastChange_singleton (key : S) (change : SyncChange S V) :
    lastChange key [change] = if change.key = key then some change else none := by
  by_cases h : change.key = key <;> simp [lastChange, h]

theorem lastChange_eq_none {key : S} {changes : List (SyncChange S V)} :
    lastChange key changes = none ↔ ∀ change ∈ changes, change.key ≠ key := by
  simp [lastChange]

theorem mem_of_lastChange {key : S} {changes : List (SyncChange S V)} {change : SyncChange S V}
    (h : lastChange key changes = some change) : change ∈ changes ∧ change.key = key := by
  simpa using List.mem_filter.1 (List.mem_of_getLast? h)

@[simp] theorem netRow_nil (target : ApplyTarget S V) (key : S) : netRow target key [] = none :=
  rfl

theorem netRow_append (target : ApplyTarget S V) (key : S) (xs ys : List (SyncChange S V)) :
    netRow target key (xs ++ ys) = (netRow target key ys).or (netRow target key xs) := by
  rw [netRow, netRow, netRow, lastChange_append]
  cases lastChange key ys <;> simp

theorem netRow_singleton (target : ApplyTarget S V) (key : S) (change : SyncChange S V) :
    netRow target key [change] = if change.key = key then some (rowOf target change) else none := by
  rw [netRow, lastChange_singleton]
  split <;> rfl

/-! ### Full rows -/

/-- An upsert carries the complete projected row: exactly the columns `cols`. -/
def FullRow (cols : List S) (change : SyncChange S V) : Prop :=
  change.operation = .upsert → change.value.keys.Perm cols

/-- Outside the projected columns every stored row has the defaults of the table. -/
def Neat (target : ApplyTarget S V) (cols : List S) (table : Table S V) : Prop :=
  ∀ key row, table.get? key = some row → ∀ c, c ∉ cols → row c = target.columnDefault c

theorem Neat.empty (target : ApplyTarget S V) (cols : List S) :
    Neat target cols (.empty : Table S V) := by
  intro key row h
  cases h

section

variable {target : ApplyTarget S V} {cols : List S}

theorem insertedRow_of_not_mem {value : OrdMap S V} (h : value.keys.Perm cols) {c : S}
    (hc : c ∉ cols) : target.insertedRow value c = target.columnDefault c := by
  have hn : value.get? c = none := OrdMap.get?_eq_none_iff.2 fun hm => hc (h.mem_iff.1 hm)
  rw [ApplyTarget.insertedRow, hn, Option.getD_none]

theorem updatedRow_eq_insertedRow {row : Row S V} {value : OrdMap S V}
    (hrow : ∀ c, c ∉ cols → row c = target.columnDefault c) (h : value.keys.Perm cols) :
    updatedRow row value = target.insertedRow value := by
  funext c
  cases hv : value.get? c with
  | some v => rw [updatedRow, ApplyTarget.insertedRow, hv, Option.getD_some, Option.getD_some]
  | none =>
    -- a column the value does not name is one no value names: both sides are the default
    have hc : c ∉ cols := fun hm => OrdMap.get?_eq_none_iff.1 hv (h.mem_iff.2 hm)
    rw [updatedRow, ApplyTarget.insertedRow, hv, Option.getD_none, Option.getD_none, hrow c hc]

/-- On a neat table an upsert of a full row leaves that row, whatever was there. -/
theorem upsertedRow_eq {table : Table S V} (hneat : Neat target cols table) (key : S)
    {value : OrdMap S V} (h : value.keys.Perm cols) :
    upsertedRow target (table.get? key) value = target.insertedRow value := by
  cases hrow : table.get? key with
  | none => rfl
  | some row => exact updatedRow_eq_insertedRow (hneat key row hrow) h

theorem neat_set {table : Table S V} (hneat : Neat target cols table) {key : S} {row : Row S V}
    (hrow : ∀ c, c ∉ cols → row c = target.columnDefault c) : Neat target cols (table.set key row) := by
  intro k r h
  rw [OrdMap.get?_set] at h
  split at h
  · obtain rfl := Option.some.inj h
    exact hrow
  · exact hneat k r h

theorem neat_delete {table : Table S V} (hneat : Neat target cols table) (key : S) :
    Neat target cols (table.delete key) := by
  intro k r h
  rw [OrdMap.get?_delete] at h
  split at h
  · cases h
  · exact hneat k r h

theorem neat_applyMessage {table : Table S V} (hneat : Neat target cols table)
    {change : SyncChange S V} (h : FullRow cols change) :
    Neat target cols (applyMessage target table change) := by
  cases hop : change.operation with
  | delete =>
    simp only [applyMessage, hop]
    exact neat_delete hneat change.key
  | upsert =>
    simp only [applyMessage, hop, upsertedRow_eq hneat change.key (h hop)]
    exact neat_set hneat fun c hc => insertedRow_of_not_mem (h hop) hc

theorem get?_applyMessage {table : Table S V} (hneat : Neat target cols table)
    {change : SyncChange S V} (h : FullRow cols change) (key : S) :
    (applyMessage target table change).get? key =
      if key = change.key then rowOf target change else table.get? key := by
  cases hop : change.operation with
  | delete => simp only [applyMessage, rowOf, hop, OrdMap.get?_delete]
  | upsert =>
    simp only [applyMessage, rowOf, hop, OrdMap.get?_set, upsertedRow_eq hneat change.key (h hop)]

theorem neat_applyOrdered {table : Table S V} (hneat : Neat target cols table)
    {changes : List (SyncChange S V)} (h : ∀ change ∈ changes, FullRow cols change) :
    Neat target cols (applyOrdered target changes table) := by
  induction changes generalizing table with
  | nil => exact hneat
  | cons change changes ih =>
    exact ih (neat_applyMessage hneat (h change List.mem_cons_self))
      fun c hc => h c (List.mem_cons_of_mem _ hc)

/-- Row-by-row application leaves under a key what the last change of the key says. -/
theorem applyOrdered_apply {table : Table S V} (hneat : Neat target cols table)
    {changes : List (SyncChange S V)} (h : ∀ change ∈ changes, FullRow cols change) (key : S) :
    (applyOrdered target changes table).get? key =
      (netRow target key changes).getD (table.get? key) := by
  induction changes generalizing table with
  | nil => rfl
  | cons change changes ih =>
    have hc : FullRow cols change := h change List.mem_cons_self
    have hstep := ih (neat_applyMessage hneat hc) fun c hm => h c (List.mem_cons_of_mem _ hm)
    show (applyOrdered target changes (applyMessage target table change)).get? key = _
    rw [hstep, ← List.singleton_append, netRow_append, netRow_singleton,
      get?_applyMessage hneat hc]
    cases netRow target key changes with
    | some row => rfl
    | none =>
      by_cases hk : change.key = key
      · subst hk
        simp
      · simp [hk, Ne.symm hk]

/-- Two batches with the same net row under every key do the same to a neat table. -/
theorem applyOrdered_congr {table : Table S V} (hneat : Neat target cols table)
    {xs ys : List (SyncChange S V)} (hx : ∀ change ∈ xs, FullRow cols change)
    (hy : ∀ change ∈ ys, FullRow cols change)
    (h : ∀ key, netRow target key xs = netRow target key ys) (key : S) :
    (applyOrdered target xs table).get? key = (applyOrdered target ys table).get? key := by
  rw [applyOrdered_apply hneat hx, applyOrdered_apply hneat hy, h key]

end

theorem applyOrdered_append (target : ApplyTarget S V) (xs ys : List (SyncChange S V))
    (table : Table S V) :
    applyOrdered target (xs ++ ys) table = applyOrdered target ys (applyOrdered target xs table) :=
  List.foldl_append

/-! ### The groups of the fold -/

theorem get?_groupByKey (messages : List (SyncChange S V)) (key : S) :
    (groupByKey messages).get? key =
      if (messages.filter fun m => m.key = key) = [] then none
      else some (messages.filter fun m => m.key = key) := by
  induction messages using List.reverseRecOn with
  | nil => rfl
  | append_singleton messages message ih =>
    have hstep : groupByKey (messages ++ [message]) = (groupByKey messages).set message.key
        (((groupByKey messages).get? message.key).getD [] ++ [message]) := by
      rw [groupByKey, groupByKey, List.foldl_append]
      rfl
    rw [hstep, OrdMap.get?_set, List.filter_append]
    by_cases hk : message.key = key
    · subst hk
      rw [ih]
      by_cases hnil : (messages.filter fun m => m.key = message.key) = []
      · simp [hnil]
      · simp [hnil]
    · simp [hk, Ne.symm hk, ih]

theorem mem_groupByKey {messages : List (SyncChange S V)} {key : S} {ops : List (SyncChange S V)} :
    (key, ops) ∈ (groupByKey messages).entries ↔
      ops ≠ [] ∧ ops = messages.filter fun m => m.key = key := by
  rw [← OrdMap.get?_eq_some_iff, get?_groupByKey]
  split
  · rename_i h
    rw [h]
    simp
  · rename_i h
    constructor
    · intro h'
      obtain rfl := Option.some.inj h'
      exact ⟨h, rfl⟩
    · rintro ⟨-, rfl⟩
      rfl

/-! ### The net operation of a key -/

omit [LinearOrder S] in
theorem segmentAfterDelete_append (ops : List (SyncChange S V)) (message : SyncChange S V) :
    segmentAfterDelete (ops ++ [message]) =
      if message.operation = .delete then [] else segmentAfterDelete ops ++ [message] := by
  by_cases h : message.operation = .delete <;> simp [segmentAfterDelete, h]

omit [LinearOrder S] in
theorem lastDelete_append (ops : List (SyncChange S V)) (message : SyncChange S V) :
    lastDelete (ops ++ [message]) =
      if message.operation = .delete then some message else lastDelete ops := by
  by_cases h : message.operation = .delete <;> simp [lastDelete, h]

omit [LinearOrder S] in
theorem mem_of_lastDelete {ops : List (SyncChange S V)} {message : SyncChange S V}
    (h : lastDelete ops = some message) : message ∈ ops := by
  simpa using List.mem_of_find?_eq_some h

omit [LinearOrder S] in
theorem mem_segmentAfterDelete {ops : List (SyncChange S V)} {message : SyncChange S V}
    (h : message ∈ segmentAfterDelete ops) : message ∈ ops ∧ message.operation = .upsert := by
  rw [segmentAfterDelete, List.mem_reverse] at h
  refine ⟨List.mem_reverse.1 ((List.takeWhile_sublist _).subset h), ?_⟩
  have hop := List.mem_takeWhile_imp h
  cases hm : message.operation with
  | upsert => rfl
  | delete => simp [hm] at hop

theorem get?_foldl_set (entries : List (S × V)) (hn : (entries.map Prod.fst).Nodup)
    (row : OrdMap S V) (c : S) :
    (entries.foldl (fun r e => r.set e.1 e.2) row).get? c =
      (entries.lookup c).or (row.get? c) := by
  induction entries generalizing row with
  | nil => rfl
  | cons e es ih =>
    rw [List.map_cons, List.nodup_cons] at hn
    rw [List.foldl_cons, ih hn.2, OrdMap.get?_set, OrdMap.lookup_cons_if]
    by_cases hc : c = e.1
    · subst hc
      have hnone : es.lookup e.1 = none := by
        rw [List.lookup_eq_none_iff]
        intro p hp
        have : p.1 ∈ es.map Prod.fst := List.mem_map_of_mem hp
        simp only [bne_iff_ne, ne_eq]
        rintro heq
        exact hn.1 (heq ▸ this)
      simp [hnone]
    · simp [hc]

theorem mergeValues_append (segment : List (SyncChange S V)) (message : SyncChange S V) (c : S) :
    (mergeValues (segment ++ [message])).get? c =
      (message.value.get? c).or ((mergeValues segment).get? c) := by
  have hstep : mergeValues (segment ++ [message]) =
      message.value.entries.foldl (fun r e => r.set e.1 e.2) (mergeValues segment) := by
    rw [mergeValues, mergeValues, List.foldl_append]
    rfl
  rw [hstep, get?_foldl_set _ message.value.nodup]
  rfl

section

variable {cols : List S}

theorem mem_keys_mergeValues {segment : List (SyncChange S V)}
    (h : ∀ m ∈ segment, m.value.keys.Perm cols) (hne : segment ≠ []) (c : S) :
    c ∈ (mergeValues segment).keys ↔ c ∈ cols := by
  induction segment using List.reverseRecOn with
  | nil => exact absurd rfl hne
  | append_singleton segment message ih =>
    have hm : message.value.keys.Perm cols := h message (by simp)
    have hs : ∀ m ∈ segment, m.value.keys.Perm cols := fun m hm => h m (by simp [hm])
    rw [← not_iff_not, ← OrdMap.get?_eq_none_iff, mergeValues_append, Option.or_eq_none_iff,
      OrdMap.get?_eq_none_iff, OrdMap.get?_eq_none_iff, hm.mem_iff]
    constructor
    · exact And.left
    · intro hc
      refine ⟨hc, fun hk => hc ?_⟩
      cases segment with
      | nil => simp [mergeValues, OrdMap.keys, OrdMap.empty] at hk
      | cons m ms => exact (ih hs (by simp)).1 hk

theorem perm_mergeValues {segment : List (SyncChange S V)}
    (h : ∀ m ∈ segment, m.value.keys.Perm cols) (hne : segment ≠ []) :
    (mergeValues segment).keys.Perm cols := by
  obtain ⟨m, hm⟩ := List.exists_mem_of_ne_nil segment hne
  have hnodup : cols.Nodup := (h m hm).nodup_iff.1 m.value.keys_nodup
  rw [List.perm_ext_iff_of_nodup (mergeValues segment).keys_nodup hnodup]
  exact mem_keys_mergeValues h hne

/-- Every upsert carries the complete row, so the merge of a run is its last row. -/
theorem get?_mergeValues {segment : List (SyncChange S V)} {message : SyncChange S V}
    (h : ∀ m ∈ segment ++ [message], m.value.keys.Perm cols) (c : S) :
    (mergeValues (segment ++ [message])).get? c = message.value.get? c := by
  rw [mergeValues_append]
  cases hv : message.value.get? c with
  | some v => rfl
  | none =>
    -- no row of the segment names the column
    have hc : c ∉ cols := fun hm =>
      OrdMap.get?_eq_none_iff.1 hv ((h message (by simp)).mem_iff.2 hm)
    rw [Option.none_or, OrdMap.get?_eq_none_iff]
    intro hk
    cases segment with
    | nil => simp [mergeValues, OrdMap.keys, OrdMap.empty] at hk
    | cons m ms =>
      exact hc ((mem_keys_mergeValues (fun x hx => h x (by simp at hx ⊢; tauto)) (by simp) c).1 hk)

theorem insertedRow_mergeValues (target : ApplyTarget S V) {segment : List (SyncChange S V)}
    {message : SyncChange S V} (h : ∀ m ∈ segment ++ [message], m.value.keys.Perm cols) :
    target.insertedRow (mergeValues (segment ++ [message])) = target.insertedRow message.value := by
  funext c
  rw [ApplyTarget.insertedRow, ApplyTarget.insertedRow, get?_mergeValues h]

end

theorem foldedUpsert_append_delete {ops : List (SyncChange S V)} {message : SyncChange S V}
    (h : message.operation = .delete) : foldedUpsert (ops ++ [message]) = none := by
  rw [foldedUpsert, segmentAfterDelete_append, if_pos h]
  rfl

theorem foldedUpsert_append_upsert (ops : List (SyncChange S V)) {message : SyncChange S V}
    (h : message.operation = .upsert) :
    foldedUpsert (ops ++ [message]) =
      some ⟨message.key, mergeValues (segmentAfterDelete ops ++ [message]), .upsert⟩ := by
  have hd : ¬ message.operation = .delete := by simp [h]
  rw [foldedUpsert, segmentAfterDelete_append, if_neg hd, List.getLast?_concat]
  rfl

/-- The net upsert of a key, from the last change of the key. -/
theorem foldedUpsert_eq_some {ops : List (SyncChange S V)} {m : SyncChange S V}
    (h : foldedUpsert ops = some m) :
    ∃ init message, ops = init ++ [message] ∧ message.operation = .upsert ∧
      m = ⟨message.key, mergeValues (segmentAfterDelete init ++ [message]), .upsert⟩ := by
  rcases List.eq_nil_or_concat ops with rfl | ⟨init, message, rfl⟩
  · simp [foldedUpsert, segmentAfterDelete] at h
  · rw [List.concat_eq_append] at h ⊢
    cases hop : message.operation with
    | delete => rw [foldedUpsert_append_delete hop] at h; cases h
    | upsert =>
      rw [foldedUpsert_append_upsert _ hop] at h
      exact ⟨init, message, rfl, hop, (Option.some.inj h).symm⟩

theorem foldChangeBatch_eq (messages : List (SyncChange S V)) :
    foldChangeBatch messages =
      ⟨(groupByKey messages).entries.filterMap fun group => lastDelete group.2,
        (groupByKey messages).entries.filterMap fun group => foldedUpsert group.2⟩ := by
  have hgen : ∀ (groups : List (S × List (SyncChange S V))) (acc : FoldedShapeBatch S V),
      groups.foldl (fun folded group => foldKey group.2 folded) acc =
        ⟨acc.deletes ++ groups.filterMap fun group => lastDelete group.2,
          acc.upserts ++ groups.filterMap fun group => foldedUpsert group.2⟩ := by
    intro groups
    induction groups with
    | nil => intro acc; simp
    | cons group groups ih =>
      intro acc
      rw [List.foldl_cons, ih]
      cases hd : lastDelete group.2 <;> cases hu : foldedUpsert group.2 <;>
        simp [foldKey, hd, hu]
  rw [foldChangeBatch, hgen]
  simp

theorem mem_deletes {messages : List (SyncChange S V)} {m : SyncChange S V} :
    m ∈ (foldChangeBatch messages).deletes ↔
      lastDelete (messages.filter fun x => x.key = m.key) = some m := by
  rw [foldChangeBatch_eq, List.mem_filterMap]
  constructor
  · rintro ⟨⟨key, ops⟩, hg, hm⟩
    obtain ⟨-, rfl⟩ := mem_groupByKey.1 hg
    have hkey : m.key = key := by simpa using (List.mem_filter.1 (mem_of_lastDelete hm)).2
    rw [hkey]
    exact hm
  · intro hm
    refine ⟨(m.key, _), mem_groupByKey.2 ⟨?_, rfl⟩, hm⟩
    exact List.ne_nil_of_mem (mem_of_lastDelete hm)

theorem key_of_foldedUpsert {messages : List (SyncChange S V)} {key : S}
    {ops : List (SyncChange S V)} (hg : (key, ops) ∈ (groupByKey messages).entries)
    {m : SyncChange S V} (hm : foldedUpsert ops = some m) : m.key = key := by
  obtain ⟨-, hops⟩ := mem_groupByKey.1 hg
  obtain ⟨init, message, hsplit, -, rfl⟩ := foldedUpsert_eq_some hm
  have hmem : message ∈ messages.filter fun x => x.key = key := by
    rw [← hops, hsplit]
    simp
  simpa using (List.mem_filter.1 hmem).2

theorem mem_upserts {messages : List (SyncChange S V)} {m : SyncChange S V} :
    m ∈ (foldChangeBatch messages).upserts ↔
      foldedUpsert (messages.filter fun x => x.key = m.key) = some m := by
  rw [foldChangeBatch_eq, List.mem_filterMap]
  constructor
  · rintro ⟨⟨key, ops⟩, hg, hm⟩
    rw [key_of_foldedUpsert hg hm, ← (mem_groupByKey.1 hg).2]
    exact hm
  · intro hm
    refine ⟨(m.key, _), mem_groupByKey.2 ⟨?_, rfl⟩, hm⟩
    obtain ⟨init, message, hsplit, -, -⟩ := foldedUpsert_eq_some hm
    rw [hsplit]
    simp

/-- One change of each group names each key once. -/
theorem nodup_keys_filterMap {messages : List (SyncChange S V)}
    {f : List (SyncChange S V) → Option (SyncChange S V)}
    (h : ∀ group ∈ (groupByKey messages).entries, ∀ m, f group.2 = some m → m.key = group.1) :
    (((groupByKey messages).entries.filterMap fun group => f group.2).map SyncChange.key).Nodup := by
  have hsub : ∀ groups : List (S × List (SyncChange S V)),
      (∀ group ∈ groups, ∀ m, f group.2 = some m → m.key = group.1) →
      ((groups.filterMap fun group => f group.2).map SyncChange.key).Sublist
        (groups.map Prod.fst) := by
    intro groups
    induction groups with
    | nil => intro _; simp
    | cons group groups ih =>
      intro h
      have ih' := ih fun g hg => h g (List.mem_cons_of_mem _ hg)
      cases hu : f group.2 with
      | none => simpa [hu] using ih'.cons group.1
      | some m =>
        have hk : m.key = group.1 := h group List.mem_cons_self m hu
        simpa [hu, hk] using ih'.cons_cons group.1
  exact (hsub _ h).nodup (groupByKey messages).nodup

/-- The folded upserts name each key once. -/
theorem nodup_upserts (messages : List (SyncChange S V)) :
    ((foldChangeBatch messages).upserts.map SyncChange.key).Nodup := by
  rw [foldChangeBatch_eq]
  exact nodup_keys_filterMap fun group hg m hm => key_of_foldedUpsert hg hm

/-- And so do the folded deletes. -/
theorem nodup_deletes (messages : List (SyncChange S V)) :
    ((foldChangeBatch messages).deletes.map SyncChange.key).Nodup := by
  rw [foldChangeBatch_eq]
  refine nodup_keys_filterMap fun group hg m hm => ?_
  obtain ⟨-, hops⟩ := mem_groupByKey.1 hg
  have hmem := mem_of_lastDelete hm
  rw [hops] at hmem
  simpa using (List.mem_filter.1 hmem).2

theorem operation_of_mem_deletes {messages : List (SyncChange S V)} {m : SyncChange S V}
    (h : m ∈ (foldChangeBatch messages).deletes) : m.operation = .delete := by
  have hfind := List.find?_some (mem_deletes.1 h)
  simpa using hfind

theorem operation_of_mem_upserts {messages : List (SyncChange S V)} {m : SyncChange S V}
    (h : m ∈ (foldChangeBatch messages).upserts) : m.operation = .upsert := by
  obtain ⟨init, message, -, -, rfl⟩ := foldedUpsert_eq_some (mem_upserts.1 h)
  rfl

/-! ### The fold keeps the net row of every key -/

theorem lastChange_of_nodup {messages : List (SyncChange S V)}
    (hn : (messages.map SyncChange.key).Nodup) {m : SyncChange S V} (hm : m ∈ messages) :
    lastChange m.key messages = some m := by
  induction messages with
  | nil => cases hm
  | cons x xs ih =>
    rw [List.map_cons, List.nodup_cons] at hn
    rw [← List.singleton_append, lastChange_append, lastChange_singleton]
    rcases List.mem_cons.1 hm with rfl | hm
    · have hnone : lastChange m.key xs = none := lastChange_eq_none.2 fun y hy heq =>
        hn.1 (heq ▸ List.mem_map_of_mem hy)
      simp [hnone]
    · simp [ih hn.2 hm]

section

variable {target : ApplyTarget S V} {cols : List S} {messages : List (SyncChange S V)}

/-- The folded upserts leave the net row of a key whose last change is an upsert. -/
theorem netRow_upserts (h : ∀ m ∈ messages, FullRow cols m) (key : S) :
    netRow target key (foldChangeBatch messages).upserts =
      (netRow target key messages).filter Option.isSome := by
  rcases List.eq_nil_or_concat (messages.filter fun m => m.key = key) with
    hops | ⟨init, message, hops⟩
  · have hnone : lastChange key (foldChangeBatch messages).upserts = none := by
      refine lastChange_eq_none.2 fun m hm hk => ?_
      have hm' := mem_upserts.1 hm
      rw [hk, hops] at hm'
      simp [foldedUpsert, segmentAfterDelete] at hm'
    rw [netRow, netRow, hnone, lastChange, hops]
    rfl
  · rw [List.concat_eq_append] at hops
    have hmem : message ∈ messages ∧ message.key = key := by
      have : message ∈ messages.filter fun m => m.key = key := by simp [hops]
      simpa using List.mem_filter.1 this
    have hlast : lastChange key messages = some message := by
      rw [lastChange, hops, List.getLast?_concat]
    cases hop : message.operation with
    | delete =>
      have hnone : lastChange key (foldChangeBatch messages).upserts = none := by
        refine lastChange_eq_none.2 fun m hm hk => ?_
        have hm' := mem_upserts.1 hm
        rw [hk, hops, foldedUpsert_append_delete hop] at hm'
        cases hm'
      rw [netRow, netRow, hnone, hlast]
      simp [rowOf, hop, Option.filter]
    | upsert =>
      have hu := foldedUpsert_append_upsert init hop
      rw [← hops, ← hmem.2] at hu
      set u : SyncChange S V :=
        ⟨message.key, mergeValues (segmentAfterDelete init ++ [message]), .upsert⟩ with hu_def
      have hin : u ∈ (foldChangeBatch messages).upserts := mem_upserts.2 hu
      -- the folded row and the last row of the key are the same row
      have hperm : ∀ m ∈ segmentAfterDelete init ++ [message], m.value.keys.Perm cols := by
        intro m hm
        rcases List.mem_append.1 hm with hm | hm
        · obtain ⟨hmi, hmo⟩ := mem_segmentAfterDelete hm
          have hmf : m ∈ messages.filter fun m => m.key = key := by simp [hops, hmi]
          exact h m (List.mem_filter.1 hmf).1 hmo
        · obtain rfl := List.mem_singleton.1 hm
          exact h m hmem.1 hop
      have hlu : lastChange key (foldChangeBatch messages).upserts = some u := by
        rw [← hmem.2]
        exact lastChange_of_nodup (nodup_upserts messages) hin
      have hrow : rowOf target u = rowOf target message := by
        simp only [rowOf, hop, hu_def, insertedRow_mergeValues target hperm]
      rw [netRow, netRow, hlast, hlu, Option.map_some, Option.map_some, hrow]
      simp [rowOf, hop, Option.filter]

theorem netRow_deletes (target : ApplyTarget S V) (messages : List (SyncChange S V)) (key : S) :
    netRow target key (foldChangeBatch messages).deletes = none ∨
      netRow target key (foldChangeBatch messages).deletes = some none := by
  rw [netRow]
  cases hl : lastChange key (foldChangeBatch messages).deletes with
  | none => exact Or.inl rfl
  | some m =>
    have hop := operation_of_mem_deletes (mem_of_lastChange hl).1
    right
    simp [rowOf, hop]

/-- `deletes → upserts` leaves under every key what the batch leaves in stream order. -/
theorem netRow_folded (h : ∀ m ∈ messages, FullRow cols m) (key : S) :
    netRow target key ((foldChangeBatch messages).deletes ++ (foldChangeBatch messages).upserts) =
      netRow target key messages := by
  rw [netRow_append, netRow_upserts h]
  rcases hnet : netRow target key messages with _ | (_ | row)
  · -- no change of the key: the fold has none either
    have hops : messages.filter (fun m => m.key = key) = [] := by
      simpa [netRow, lastChange] using hnet
    have hnone : lastChange key (foldChangeBatch messages).deletes = none := by
      refine lastChange_eq_none.2 fun m hm hk => ?_
      have hm' := mem_deletes.1 hm
      rw [hk, hops] at hm'
      cases hm'
    simp [netRow, hnone]
  · -- a trailing delete is among the folded deletes
    obtain ⟨message, hlast, hrow⟩ := Option.map_eq_some_iff.1 hnet
    obtain ⟨hmem, hkey⟩ := mem_of_lastChange hlast
    obtain ⟨init, hops⟩ : ∃ init, messages.filter (fun m => m.key = key) = init ++ [message] := by
      obtain ⟨ys, hys⟩ := List.getLast?_eq_some_iff.1 hlast
      exact ⟨ys, hys⟩
    have hop : message.operation = .delete := by
      cases hop : message.operation with
      | delete => rfl
      | upsert => simp [rowOf, hop] at hrow
    have hd : message ∈ (foldChangeBatch messages).deletes := by
      rw [mem_deletes, hkey, hops, lastDelete_append, if_pos hop]
    rcases netRow_deletes target messages key with hn | hn
    · exact absurd hkey (lastChange_eq_none.1 (by simpa [netRow] using hn) message hd)
    · simp [hn, Option.filter]
  · simp [Option.filter]

theorem fullRow_of_mem_upserts (h : ∀ m ∈ messages, FullRow cols m) {m : SyncChange S V}
    (hm : m ∈ (foldChangeBatch messages).upserts) : FullRow cols m := by
  intro _
  obtain ⟨init, message, hsplit, hop, rfl⟩ := foldedUpsert_eq_some (mem_upserts.1 hm)
  refine perm_mergeValues (fun x hx => ?_) (by simp)
  have hx' : x ∈ messages ∧ x.operation = .upsert := by
    rcases List.mem_append.1 hx with hx | hx
    · obtain ⟨hxi, hxo⟩ := mem_segmentAfterDelete hx
      have hf : x ∈ messages.filter fun y => y.key = message.key := by
        rw [hsplit]
        simp [hxi]
      exact ⟨(List.mem_filter.1 hf).1, hxo⟩
    · obtain rfl := List.mem_singleton.1 hx
      have hf : x ∈ messages.filter fun y => y.key = x.key := by
        rw [hsplit]
        simp
      exact ⟨(List.mem_filter.1 hf).1, hop⟩
  exact h x hx'.1 hx'.2

end

theorem fullRow_of_mem_deletes {cols : List S} {messages : List (SyncChange S V)}
    {m : SyncChange S V} (hm : m ∈ (foldChangeBatch messages).deletes) : FullRow cols m := by
  intro hop
  rw [operation_of_mem_deletes hm] at hop
  cases hop

/-! ### The bulk statements, as ordered application -/

theorem applyBulkDeletes_eq (target : ApplyTarget S V) {messages : List (SyncChange S V)}
    (h : ∀ m ∈ messages, m.operation = .delete) (table : Table S V) :
    applyBulkDeletesToTable messages table = applyOrdered target messages table := by
  induction messages generalizing table with
  | nil => exact OrdMap.ext_entries (by simp [applyBulkDeletesToTable, OrdMap.filter, applyOrdered])
  | cons m ms ih =>
    have hm : m.operation = .delete := h m List.mem_cons_self
    have happ : applyMessage target table m = table.delete m.key := by
      simp only [applyMessage, hm]
    show _ = applyOrdered target ms (applyMessage target table m)
    rw [happ, ← ih fun x hx => h x (List.mem_cons_of_mem _ hx), applyBulkDeletesToTable,
      applyBulkDeletesToTable, OrdMap.filter_delete]
    congr 1
    funext x _
    simp [Bool.and_comm]

theorem upsertRows_eq (target : ApplyTarget S V) {messages : List (SyncChange S V)}
    (hn : (messages.map SyncChange.key).Nodup) (h : ∀ m ∈ messages, m.operation = .upsert)
    (table : Table S V) :
    upsertRows target messages table = .ok (applyOrdered target messages table) := by
  rw [upsertRows, if_pos hn]
  congr 1
  clear hn
  induction messages generalizing table with
  | nil => rfl
  | cons m ms ih =>
    have hm : m.operation = .upsert := h m List.mem_cons_self
    rw [List.foldl_cons, ih fun x hx => h x (List.mem_cons_of_mem _ hx)]
    show _ = applyOrdered target ms (applyMessage target table m)
    simp only [applyMessage, hm]

/-- A bulk load of distinct keys goes through exactly when the table holds none of them. -/
theorem insertRows_eq_ok {target : ApplyTarget S V} {shape : S} {messages : List (SyncChange S V)}
    (hn : (messages.map SyncChange.key).Nodup) (h : ∀ m ∈ messages, m.operation = .upsert)
    {table table' : Table S V} :
    insertRows target shape messages table = .ok table' ↔
      (∀ m ∈ messages, table.get? m.key = none) ∧ table' = applyOrdered target messages table := by
  induction messages generalizing table with
  | nil => simp [insertRows, applyOrdered, eq_comm]
  | cons m ms ih =>
    rw [List.map_cons, List.nodup_cons] at hn
    have hm : m.operation = .upsert := h m List.mem_cons_self
    cases ht : table.get? m.key with
    | some row => simp [insertRows, ht]
    | none =>
      have happ : applyMessage target table m =
          table.set m.key (target.insertedRow m.value) := by
        simp only [applyMessage, hm, ht, upsertedRow]
      have hother : ∀ x ∈ ms,
          (table.set m.key (target.insertedRow m.value)).get? x.key = table.get? x.key := by
        intro x hx
        refine OrdMap.get?_set_ne _ _ fun heq => hn.1 ?_
        rw [← heq]
        exact List.mem_map_of_mem hx
      have hcons : applyOrdered target (m :: ms) table =
          applyOrdered target ms (applyMessage target table m) := rfl
      rw [insertRows]
      simp only [ht]
      rw [ih hn.2 fun x hx => h x (List.mem_cons_of_mem _ hx), hcons, happ,
        List.forall_mem_cons]
      constructor
      · rintro ⟨hall, rfl⟩
        exact ⟨⟨ht, fun x hx => by rw [← hother x hx]; exact hall x hx⟩, rfl⟩
      · rintro ⟨⟨-, hall⟩, rfl⟩
        exact ⟨fun x hx => by rw [hother x hx]; exact hall x hx, rfl⟩

section

variable {target : ApplyTarget S V} {cols : List S} {messages : List (SyncChange S V)}

theorem assertUniformColumnSet_of_perm {columns : List S} (hc : columns.Perm cols)
    (h : ∀ m ∈ messages, m.value.keys.Perm cols) :
    assertUniformColumnSet columns messages = .ok () := by
  refine if_pos ?_
  rw [List.all_eq_true]
  intro m hm
  have hp := h m hm
  simp only [Bool.and_eq_true, beq_iff_eq, List.all_eq_true, List.contains_iff_mem]
  exact ⟨hp.length_eq.trans hc.length_eq.symm, fun x hx => hc.mem_iff.2 (hp.mem_iff.1 hx)⟩

theorem toDriverRow_of_subset (hsub : cols ⊆ target.columns)
    (h : ∀ m ∈ messages, m.value.keys.Perm cols) : toDriverRow target messages = .ok () := by
  refine if_pos ?_
  simp only [List.all_eq_true, List.contains_iff_mem]
  exact fun m hm x hx => hsub ((h m hm).mem_iff.1 hx)

theorem jsonRecordsetColumns_perm (hnodup : target.columns.Nodup) (hsub : cols ⊆ target.columns)
    {first : SyncChange S V} (h : first.value.keys.Perm cols) :
    (jsonRecordsetColumns target first).Perm cols := by
  rw [jsonRecordsetColumns,
    List.perm_ext_iff_of_nodup (hnodup.filter _) (h.nodup_iff.1 first.value.keys_nodup)]
  intro c
  simp only [List.mem_filter, List.contains_iff_mem, h.mem_iff]
  exact ⟨And.right, fun hc => ⟨hsub hc, hc⟩⟩

/-- The upsert applier on distinct full rows is ordered application. -/
theorem applyUpsertsToTable_eq (hsub : cols ⊆ target.columns)
    (hn : (messages.map SyncChange.key).Nodup) (hop : ∀ m ∈ messages, m.operation = .upsert)
    (h : ∀ m ∈ messages, FullRow cols m) (table : Table S V) :
    applyUpsertsToTable target messages table = .ok (applyOrdered target messages table) := by
  have hperm : ∀ m ∈ messages, m.value.keys.Perm cols := fun m hm => h m hm (hop m hm)
  cases messages with
  | nil => rfl
  | cons first rest =>
    simp only [applyUpsertsToTable]
    rw [assertUniformColumnSet_of_perm (hperm first List.mem_cons_self) hperm,
      toDriverRow_of_subset hsub hperm, ok_bind, ok_bind, upsertRows_eq target hn hop]

theorem applyUpsertsToTableWithJson_eq (hnodup : target.columns.Nodup)
    (hsub : cols ⊆ target.columns) (hn : (messages.map SyncChange.key).Nodup)
    (hop : ∀ m ∈ messages, m.operation = .upsert) (h : ∀ m ∈ messages, FullRow cols m)
    (table : Table S V) :
    applyUpsertsToTableWithJson target messages table =
      .ok (applyOrdered target messages table) := by
  have hperm : ∀ m ∈ messages, m.value.keys.Perm cols := fun m hm => h m hm (hop m hm)
  cases messages with
  | nil => rfl
  | cons first rest =>
    simp only [applyUpsertsToTableWithJson]
    rw [assertUniformColumnSet_of_perm
        (jsonRecordsetColumns_perm hnodup hsub (hperm first List.mem_cons_self)) hperm,
      ok_bind, upsertRows_eq target hn hop]

end

end Circuits
