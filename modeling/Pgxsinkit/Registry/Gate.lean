/-
When the gate reports a change of the canonical form.

The change is about a table that differs exactly when some table is new or gone, or differs in a
field the diff reads, or differs at all and its row class changed too.  A table whose retention
alone was turned around changes the fingerprint and gets no word.
-/
import Pgxsinkit.Registry.Noticed
import Pgxsinkit.Registry.Reorder

namespace Registry

open Keyed

/-! ### What a change is about -/

/-- The summary line of an Event-stream change says so. -/
def AboutStream (change : RegistryChange) : Prop := text "event stream " <+: change.detail

theorem not_aboutStream (unit : UInt16) {change : RegistryChange}
    (hhead : change.detail.head? = some unit) (hunit : unit ≠ 0x65) : ¬ AboutStream change := by
  rintro ⟨rest, hrest⟩
  rw [← hrest] at hhead
  exact hunit (Option.some.inj hhead).symm

/-- A change about the table `table`. -/
def AboutTable (table : Text) (change : RegistryChange) : Prop :=
  change.table = table ∧ ¬ AboutStream change

theorem aboutTable_diffColumns {table : Text} {previous next : List Column} :
    ∀ change ∈ diffColumns table previous next, AboutTable table change := by
  intro change hmem
  obtain ⟨name, hmem⟩ := mem_diffMaps.1 hmem
  generalize (byKey Column.name previous).get? name = previous,
    (byKey Column.name next).get? name = next at hmem
  cases previous with
  | none =>
    cases next with
    | none => cases hmem
    | some column' =>
      rw [diffAt, List.mem_singleton, addedColumn] at hmem
      subst hmem
      split
      · exact ⟨rfl, not_aboutStream 0x63 rfl (by decide)⟩
      · exact ⟨rfl, not_aboutStream 0x4e rfl (by decide)⟩
  | some column =>
    cases next with
    | none =>
      rw [diffAt, List.mem_singleton] at hmem
      subst hmem
      exact ⟨rfl, not_aboutStream 0x63 rfl (by decide)⟩
    | some column' =>
      rw [diffAt, diffColumn, List.mem_append, mem_pushIf] at hmem
      obtain ⟨_, rfl⟩ | hmem := hmem
      · exact ⟨rfl, not_aboutStream 0x63 rfl (by decide)⟩
      · split at hmem
        · rw [List.mem_singleton] at hmem
          subst hmem
          exact ⟨rfl, not_aboutStream 0x63 rfl (by decide)⟩
        · obtain ⟨_, rfl⟩ := mem_pushIf.1 hmem
          exact ⟨rfl, not_aboutStream 0x63 rfl (by decide)⟩

theorem aboutTable_pushIf {condition : Prop} [Decidable condition] {change : RegistryChange}
    {table : Text} (h : AboutTable table change) :
    ∀ change' ∈ pushIf condition change, AboutTable table change' := by
  intro change' hmem
  obtain ⟨_, rfl⟩ := mem_pushIf.1 hmem
  exact h

theorem aboutTable_append {table : Text} {xs ys : List RegistryChange}
    (hxs : ∀ change ∈ xs, AboutTable table change) (hys : ∀ change ∈ ys, AboutTable table change) :
    ∀ change ∈ xs ++ ys, AboutTable table change := fun _ hmem =>
  (List.mem_append.1 hmem).elim (hxs _) (hys _)

theorem aboutTable_diffProjection {table : Text} {previous next : Option CanonicalProjection} :
    ∀ change ∈ diffProjection table previous next, AboutTable table change := by
  refine aboutTable_append (aboutTable_append (aboutTable_append ?_ ?_) ?_) ?_
  all_goals refine aboutTable_pushIf ⟨rfl, ?_⟩
  · exact not_aboutStream 0x70 rfl (by decide)
  · exact not_aboutStream 0x70 rfl (by decide)
  · exact not_aboutStream 0x70 rfl (by decide)
  · exact not_aboutStream 0x6f rfl (by decide)

theorem aboutTable_diffShape {table : Text} {previous next : Option CanonicalShape} :
    ∀ change ∈ diffShape table previous next, AboutTable table change := by
  refine aboutTable_append (aboutTable_append (aboutTable_append ?_ ?_) ?_) ?_
  all_goals refine aboutTable_pushIf ⟨rfl, ?_⟩
  · exact not_aboutStream 0x73 rfl (by decide)
  · exact not_aboutStream 0x72 rfl (by decide)
  · exact not_aboutStream 0x73 rfl (by decide)
  · exact not_aboutStream 0x73 rfl (by decide)

theorem aboutTable_diffTable {table : Text} {previous next : CanonicalTable} :
    ∀ change ∈ diffTable table previous next, AboutTable table change := by
  refine aboutTable_append (aboutTable_append (aboutTable_append (aboutTable_append
    (aboutTable_append (aboutTable_append (aboutTable_append aboutTable_diffColumns ?_) ?_) ?_)
    aboutTable_diffProjection) aboutTable_diffShape) ?_) ?_
  all_goals refine aboutTable_pushIf ⟨rfl, ?_⟩
  · exact not_aboutStream 0x70 rfl (by decide)
  · exact not_aboutStream 0x6c rfl (by decide)
  · exact not_aboutStream 0x6d rfl (by decide)
  · exact not_aboutStream 0x63 rfl (by decide)
  · exact not_aboutStream 0x6d rfl (by decide)

theorem aboutTable_diffRowClass {table : Text} {previous next : Option Text} :
    ∀ change ∈ diffRowClass table previous next, AboutTable table change := by
  intro change hmem
  have hhead : change.table = table ∧ change.detail.head? = some 0x72 := by
    unfold diffRowClass at hmem
    split at hmem
    · cases hmem
    · split at hmem <;> rw [List.mem_singleton] at hmem <;> subst hmem <;> exact ⟨rfl, rfl⟩
  exact ⟨hhead.1, not_aboutStream 0x72 hhead.2 (by decide)⟩

theorem aboutStream_diffEventStreams {previous next : RegistryEventStreams} :
    ∀ change ∈ diffEventStreams previous next, AboutStream change := by
  have hlead : ∀ {literal : String} (more rest : Text), text literal = text "event stream " ++ more →
      text "event stream " <+: text literal ++ rest := by
    intro literal more rest h
    rw [h, List.append_assoc]
    exact List.prefix_append _ _
  have hname : ∀ rest : Text, text "event stream " <+: text "event stream " ++ rest :=
    List.prefix_append _
  intro change hmem
  obtain hmem | hmem := List.mem_append.1 hmem
  · obtain ⟨name, _, hmem⟩ := List.mem_flatMap.1 hmem
    unfold diffEventStream at hmem
    simp only [List.append_assoc] at hmem
    split at hmem
    · split at hmem
      · rw [List.mem_singleton] at hmem
        subst hmem
        exact hname _
      · rw [List.mem_singleton] at hmem
        subst hmem
        exact hlead (text "removed: ") _ (by decide)
    · obtain ⟨_, rfl⟩ := mem_pushIf.1 hmem
      exact hname _
  · obtain ⟨name, _, hmem⟩ := List.mem_flatMap.1 hmem
    split at hmem
    · cases hmem
    · rw [List.mem_singleton] at hmem
      subst hmem
      exact hlead (text "added: ") _ (by decide)

/-! ### The tables of a registry -/

/-- The canonical table of a registry key. -/
def tableAt (registry : SyncTableRegistry) (key : Text) : Option CanonicalTable :=
  (registry.tables.lookup key).map (canonicalizeTable key)

def rowClassAt (registry : SyncTableRegistry) (key : Text) : Option Text :=
  (registry.tables.lookup key).bind (·.rowClass)

theorem canonicalKeys_nodup (registry : SyncTableRegistry) :
    ((canonicalizeRegistry registry).map CanonicalTable.key).Nodup := by
  refine ((perm_sortBy _ _).map CanonicalTable.key).nodup_iff.2 ?_
  rw [List.map_map]
  exact registry.distinct

theorem get?_canonicalizeRegistry (registry : SyncTableRegistry) (key : Text) :
    (byKey CanonicalTable.key (canonicalizeRegistry registry)).get? key = tableAt registry key := by
  refine Option.ext fun table => ?_
  rw [get?_byKey (canonicalKeys_nodup registry), canonicalizeRegistry, (perm_sortBy _ _).mem_iff,
    List.mem_map, tableAt, Option.map_eq_some_iff]
  constructor
  · rintro ⟨⟨entry, hentry, rfl⟩, rfl⟩
    exact ⟨entry.2, (Keyed.lookup_eq_some_iff registry.distinct).2 hentry, rfl⟩
  · rintro ⟨entry, hentry, rfl⟩
    exact ⟨⟨(key, entry), (Keyed.lookup_eq_some_iff registry.distinct).1 hentry, rfl⟩, rfl⟩

theorem lookup_registryRowClasses (registry : SyncTableRegistry) (key : Text) :
    ((registryRowClasses registry).lookup key).join = rowClassAt registry key := by
  have hkeys : ((registryRowClasses registry).map Prod.fst).Nodup := by
    refine ((perm_sortBy _ _).map Prod.fst).nodup_iff.2 ?_
    rw [List.map_map]
    exact registry.distinct
  have hlookup : (registryRowClasses registry).lookup key =
      (registry.tables.lookup key).map (·.rowClass) := by
    refine Option.ext fun rowClass => ?_
    rw [Keyed.lookup_eq_some_iff hkeys, registryRowClasses, (perm_sortBy _ _).mem_iff,
      List.mem_map, Option.map_eq_some_iff]
    constructor
    · rintro ⟨entry, hentry, heq⟩
      obtain ⟨rfl, rfl⟩ := Prod.mk.inj heq
      exact ⟨entry.2, (Keyed.lookup_eq_some_iff registry.distinct).2 hentry, rfl⟩
    · rintro ⟨entry, hentry, rfl⟩
      exact ⟨(key, entry), (Keyed.lookup_eq_some_iff registry.distinct).1 hentry, rfl⟩
  rw [hlookup, rowClassAt]
  cases registry.tables.lookup key <;> rfl

/-- The canonical form is the canonical tables of the keys. -/
theorem canonicalizeRegistry_eq_iff {previous next : SyncTableRegistry} :
    canonicalizeRegistry previous = canonicalizeRegistry next ↔
      ∀ key, tableAt previous key = tableAt next key := by
  constructor
  · intro h key
    rw [← get?_canonicalizeRegistry, h, get?_canonicalizeRegistry]
  · intro h
    have hmem : ∀ {registry : SyncTableRegistry} {table : CanonicalTable},
        table ∈ canonicalizeRegistry registry ↔ tableAt registry table.key = some table := by
      intro registry table
      rw [← get?_canonicalizeRegistry, get?_byKey (canonicalKeys_nodup registry)]
      exact ⟨fun hmem => ⟨hmem, rfl⟩, fun hmem => hmem.1⟩
    refine eq_of_perm_of_sorted (fun table => codeUnits table.key) ?_ ?_
      (pairwise_sortBy _ _) (pairwise_sortBy _ _)
    · refine (List.perm_ext_iff_of_nodup (canonicalKeys_nodup previous).of_map
        (canonicalKeys_nodup next).of_map).2 fun table => ?_
      rw [hmem, hmem, h]
    · have hkeys := (canonicalKeys_nodup previous).map codeUnits_injective
      rwa [List.map_map] at hkeys

/-! ### What is reported -/

/-- The changes about the table of `key`. -/
def changesAt (previous next : SyncTableRegistry) (key : Text) : List RegistryChange :=
  diffAt (fun key => ⟨.breaking, key, text "table removed"⟩)
    (fun key prevTable nextTable => diffTable key prevTable nextTable ++
      diffRowClass key (rowClassAt previous key) (rowClassAt next key))
    (fun key _ => ⟨.compatible, key, text "table added"⟩) key (tableAt previous key)
    (tableAt next key)

theorem aboutTable_changesAt {previous next : SyncTableRegistry} {key : Text} :
    ∀ change ∈ changesAt previous next key, AboutTable key change := by
  rw [changesAt]
  cases tableAt previous key with
  | none =>
    cases tableAt next key with
    | none => exact fun _ h => nomatch h
    | some nextTable =>
      intro change hmem
      obtain rfl := List.mem_singleton.1 hmem
      exact ⟨rfl, not_aboutStream 0x74 rfl (by decide)⟩
  | some prevTable =>
    cases tableAt next key with
    | none =>
      intro change hmem
      obtain rfl := List.mem_singleton.1 hmem
      exact ⟨rfl, not_aboutStream 0x74 rfl (by decide)⟩
    | some nextTable => exact aboutTable_append aboutTable_diffTable aboutTable_diffRowClass

theorem mem_changes {previous next : SyncTableRegistry} {change : RegistryChange} :
    change ∈ (compareRegistries previous next).changes ↔
      (∃ key, change ∈ changesAt previous next key) ∨
        change ∈ diffEventStreams (registryEventStreams previous) (registryEventStreams next) := by
  have htables : change ∈ diffTables (canonicalizeRegistry previous) (canonicalizeRegistry next)
      (registryRowClasses previous) (registryRowClasses next) ↔
        ∃ key, change ∈ changesAt previous next key := by
    rw [diffTables, mem_diffMaps]
    refine exists_congr fun key => ?_
    simp only [get?_canonicalizeRegistry, changesAt, lookup_registryRowClasses]
  rw [← htables]
  exact List.mem_append

/-- The gate has a word on the table of `key`, and it differs. -/
def NoticedAt (previous next : SyncTableRegistry) (key : Text) : Prop :=
  match tableAt previous key, tableAt next key with
  | none, none => False
  | some prevTable, some nextTable => prevTable ≠ nextTable ∧
      (Noticed prevTable nextTable ∨ rowClassAt previous key ≠ rowClassAt next key)
  | _, _ => True

theorem noticedAt_iff {previous next : SyncTableRegistry} {key : Text} :
    NoticedAt previous next key ↔
      tableAt previous key ≠ tableAt next key ∧ changesAt previous next key ≠ [] := by
  rw [NoticedAt, changesAt]
  cases tableAt previous key with
  | none => cases tableAt next key <;> simp [diffAt]
  | some prevTable =>
    cases tableAt next key with
    | none => simp [diffAt]
    | some nextTable =>
      rw [diffAt, append_ne_nil, diffTable_ne_nil, diffRowClass_ne_nil, ne_eq (some _),
        Option.some_inj]

/-- Some change is about a table that differs. -/
def Reports (previous next : SyncTableRegistry) : Prop :=
  ∃ change ∈ (compareRegistries previous next).changes, ¬ AboutStream change ∧
    tableAt previous change.table ≠ tableAt next change.table

theorem reports_iff {previous next : SyncTableRegistry} :
    Reports previous next ↔ ∃ key, NoticedAt previous next key := by
  simp only [noticedAt_iff]
  constructor
  · rintro ⟨change, hmem, hstream, hdiffers⟩
    obtain ⟨key, hmem⟩ := (mem_changes.1 hmem).resolve_right fun h =>
      hstream (aboutStream_diffEventStreams change h)
    rw [(aboutTable_changesAt change hmem).1] at hdiffers
    exact ⟨key, hdiffers, List.ne_nil_of_mem hmem⟩
  · rintro ⟨key, hdiffers, hchanges⟩
    obtain ⟨change, hmem⟩ := List.exists_mem_of_ne_nil _ hchanges
    obtain ⟨rfl, hstream⟩ := aboutTable_changesAt change hmem
    exact ⟨change, mem_changes.2 (Or.inl ⟨_, hmem⟩), hstream, hdiffers⟩

/-! ### Nothing to report -/

theorem diffEventStreams_self (streams : RegistryEventStreams) :
    diffEventStreams streams streams = [] := by
  have hown : ∀ name ∈ sortStrings (streams.map Prod.fst), ∃ hash,
      streams.lookup name = some hash := by
    intro name hname
    have hname := (perm_sortBy codeUnits _).mem_iff.1 hname
    obtain ⟨hash, hlookup⟩ | hnone := (streams.lookup name).eq_none_or_eq_some.symm
    · exact ⟨hash, hlookup⟩
    · obtain ⟨entry, hentry, rfl⟩ := List.mem_map.1 hname
      exact absurd (List.lookup_eq_none_iff.1 hnone entry hentry) (by simp)
  rw [diffEventStreams, List.append_eq_nil_iff, List.flatMap_eq_nil_iff, List.flatMap_eq_nil_iff]
  constructor
  · intro name hname
    obtain ⟨hash, hlookup⟩ := hown name hname
    simp [diffEventStream, hlookup, pushIf]
  · intro name hname
    obtain ⟨hash, hlookup⟩ := hown name hname
    rw [if_pos (Or.inl (by rw [hlookup]; rfl))]

/-- Equal canonical forms, row classes and Event streams give no change. -/
theorem changes_eq_nil {previous next : SyncTableRegistry}
    (hcanonical : canonicalizeRegistry previous = canonicalizeRegistry next)
    (hclasses : registryRowClasses previous = registryRowClasses next)
    (hstreams : registryEventStreams previous = registryEventStreams next) :
    (compareRegistries previous next).changes = [] := by
  refine List.eq_nil_iff_forall_not_mem.2 fun change hmem => ?_
  obtain ⟨key, hmem⟩ | hmem := mem_changes.1 hmem
  · have hclass : ∀ key, rowClassAt previous key = rowClassAt next key := by
      intro key
      rw [← lookup_registryRowClasses, hclasses, lookup_registryRowClasses]
    simp only [changesAt, canonicalizeRegistry_eq_iff.1 hcanonical, hclass] at hmem
    cases htable : tableAt next key with
    | none =>
      rw [htable] at hmem
      cases hmem
    | some table =>
      rw [htable, diffAt, List.mem_append] at hmem
      obtain hmem | hmem := hmem
      · exact absurd (diffTable_ne_nil.1 (List.ne_nil_of_mem hmem)) (by simp [Noticed])
      · exact diffRowClass_ne_nil.1 (List.ne_nil_of_mem hmem) rfl
  · rw [hstreams, diffEventStreams_self] at hmem
    cases hmem

/-! ### The gate -/

/-- What the gate promises of two registries. -/
structure Gated (previous next : SyncTableRegistry) : Prop where
  /-- where the canonical string moves, a change is about a table that differs -/
  reports : canonicalRegistryString previous ≠ canonicalRegistryString next → Reports previous next
  silent : canonicalizeRegistry previous = canonicalizeRegistry next →
    registryRowClasses previous = registryRowClasses next →
    registryEventStreams previous = registryEventStreams next →
    (compareRegistries previous next).changes = []
  reordered : previous.Reorders next → (compareRegistries previous next).changes = []

/-- The gate keeps its promise where every table is as it was, and where the diff has a word on one
that is not. -/
theorem gated_iff (previous next : SyncTableRegistry) : Gated previous next ↔
    (∀ key, tableAt previous key = tableAt next key) ∨ ∃ key, NoticedAt previous next key := by
  constructor
  · intro h
    by_cases hsame : canonicalizeRegistry previous = canonicalizeRegistry next
    · exact Or.inl (canonicalizeRegistry_eq_iff.1 hsame)
    · exact Or.inr (reports_iff.1 (h.reports fun h => hsame (canonicalRegistryString_eq_iff.1 h)))
  · intro h
    refine ⟨fun hne => ?_, changes_eq_nil, fun hreorders => ?_⟩
    · obtain hsame | hnoticed := h
      · exact absurd (canonicalRegistryString_eq_iff.2 (canonicalizeRegistry_eq_iff.2 hsame)) hne
      · exact reports_iff.2 hnoticed
    · exact changes_eq_nil (canonicalizeRegistry_reorders hreorders)
        (registryRowClasses_reorders hreorders) (registryEventStreams_reorders hreorders)

/-- One table `todos` with its key. -/
def todos (retention : Retention) : SyncTableRegistry where
  tables := [(text "todos",
    { table := ⟨[⟨text "id", text "uuid", true, false, true⟩], by decide⟩
      mode := .readwrite
      primaryKey := [text "id"]
      rowClass := none
      shape := none
      clientProjection := none
      managedFields := none
      consistencyGroup := none
      retention := some retention })]
  distinct := List.nodup_singleton _
  streams := []
  streamsDistinct := List.nodup_nil

/-- Turning the retention around changes the canonical string, and the diff says nothing. -/
theorem retention_goes_unreported : ¬ Gated (todos .persistent) (todos .ephemeral) := by
  intro h
  have hstring : canonicalRegistryString (todos .persistent) ≠
      canonicalRegistryString (todos .ephemeral) := by
    rw [ne_eq, canonicalRegistryString_eq_iff, canonicalizeRegistry_eq_iff]
    exact fun hsame => absurd (hsame (text "todos")) (by decide)
  have hsilent : (compareRegistries (todos .persistent) (todos .ephemeral)).changes = [] := by
    decide
  obtain ⟨change, hmem, -, -⟩ := h.reports hstring
  rw [hsilent] at hmem
  cases hmem

end Registry
