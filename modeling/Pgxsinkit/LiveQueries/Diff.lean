/-
The diffs of a live query and their fold.

`computeLiveDiff` turns the complete rows of a notification into what changed since the last one,
and the materializer puts the rows together again on the other side.  As long as no two rows of a
result share a key, what comes out are the rows that went in.
-/
import Pgxsinkit.Lib.OrdMap

namespace LiveQueries

/-! ### Rows and their keys -/

/-- An object with string keys; its values are equal when `Object.is` says so. -/
abbrev Row (V : Type) : Type := OrdMap String V

/-- `String(value)`, with `none` for `undefined`, and `JSON.stringify(row)`, which throws on a row
with a bigint in it. -/
structure Rendering (V : Type) where
  string : Option V → String
  stringify : Row V → Option String

variable {V : Type} {rendering : Rendering V} {pkColumns : Option (List String)}

def KEY_SEP : String := "\x00"

def rowKey (rendering : Rendering V) (row : Row V) (pkColumns : Option (List String)) :
    Option String :=
  match pkColumns with
  | some (column :: columns) =>
    some (KEY_SEP.intercalate ((column :: columns).map fun col => rendering.string (row.get? col)))
  | some [] | none => rendering.stringify row

/-- The same cells, in whatever order. -/
def SameRow (a b : Row V) : Prop := ∀ column, a.get? column = b.get? column

theorem SameRow.refl (a : Row V) : SameRow a a := fun _ => rfl

theorem SameRow.trans {a b c : Row V} (h : SameRow a b) (h' : SameRow b c) : SameRow a c :=
  fun column => (h column).trans (h' column)

/-! ### Results without a key twice -/

/-- Every row has a key, and no two rows have the same. -/
def Keyed (rendering : Rendering V) (pkColumns : Option (List String)) (rows : List (Row V)) :
    Prop :=
  (∀ row ∈ rows, (rowKey rendering row pkColumns).isSome = true) ∧
    (rows.map fun row => rowKey rendering row pkColumns).Nodup

instance (rendering : Rendering V) (pkColumns : Option (List String)) (rows : List (Row V)) :
    Decidable (Keyed rendering pkColumns rows) :=
  inferInstanceAs (Decidable (_ ∧ _))

/-- The rows with their keys. -/
structure KeyedAs (rendering : Rendering V) (pkColumns : Option (List String))
    (rows : List (Row V)) (pairs : List (String × Row V)) : Prop where
  rows : pairs.map Prod.snd = rows
  keys : ∀ e ∈ pairs, rowKey rendering e.2 pkColumns = some e.1
  nodup : (pairs.map Prod.fst).Nodup

theorem Keyed.exists_keyedAs {rows : List (Row V)} (h : Keyed rendering pkColumns rows) :
    ∃ pairs, KeyedAs rendering pkColumns rows pairs := by
  let key : Row V → String := fun row => (rowKey rendering row pkColumns).getD ""
  have hkey : ∀ row ∈ rows, rowKey rendering row pkColumns = some (key row) := by
    intro row hrow
    obtain ⟨k, hk⟩ := Option.isSome_iff_exists.1 (h.1 row hrow)
    simp [key, hk]
  refine ⟨rows.map fun row => (key row, row), ?_, ?_, ?_⟩
  · rw [List.map_map]
    exact List.map_id rows
  · intro e he
    obtain ⟨row, hrow, rfl⟩ := List.mem_map.1 he
    exact hkey row hrow
  · have hmap : (rows.map fun row => rowKey rendering row pkColumns) = (rows.map key).map some := by
      rw [List.map_map]
      exact List.map_congr_left hkey
    rw [List.map_map]
    exact List.Nodup.of_map some (hmap ▸ h.2)

/-! ### The diff -/

variable [DecidableEq V]

def rowsEqual (a b : Row V) : Bool :=
  a.keys.length == b.keys.length && a.entries.all fun e => b.get? e.1 == some e.2

theorem sameRow_of_rowsEqual {a b : Row V} (h : rowsEqual a b = true) : SameRow a b := by
  simp only [rowsEqual, Bool.and_eq_true, beq_iff_eq, List.all_eq_true] at h
  obtain ⟨hlength, hcells⟩ := h
  have hsub : ∀ {column value}, a.get? column = some value → b.get? column = some value :=
    fun hget => hcells _ (OrdMap.get?_eq_some_iff.1 hget)
  intro column
  cases hget : a.get? column with
  | some value => exact (hsub hget).symm
  | none =>
    rw [eq_comm, OrdMap.get?_eq_none_iff]
    -- equally many keys, and those of `a` among them
    have hkeys : a.keys ⊆ b.keys := by
      intro k hk
      obtain ⟨value, hvalue⟩ := OrdMap.mem_keys_iff.1 hk
      exact OrdMap.mem_keys_iff.2 ⟨value, hsub hvalue⟩
    have hperm := (List.subperm_of_subset a.keys_nodup hkeys).perm_of_length_le hlength.ge
    exact fun hmem => OrdMap.get?_eq_none_iff.1 hget (hperm.mem_iff.2 hmem)

structure LiveDiff (V : Type) where
  order : List String
  added : List (String × Row V)
  changed : List (String × Row V)
  removed : List String

structure LiveDiffState (V : Type) where
  pkColumns : Option (List String)
  previous : OrdMap String (Row V)

def seedLiveDiffState (rendering : Rendering V) (rows : List (Row V))
    (pkColumns : Option (List String)) : Option (LiveDiffState V) := do
  let previous ← rows.foldlM (fun previous row => do
    let key ← rowKey rendering row pkColumns
    pure (previous.set key row)) OrdMap.empty
  pure ⟨pkColumns, previous⟩

/-- What the loop of `computeLiveDiff` has gathered; `nextKeys` are the keys of `nextMap`. -/
structure DiffScan (V : Type) where
  order : List String
  added : List (String × Row V)
  changed : List (String × Row V)
  nextMap : OrdMap String (Row V)

def DiffScan.visit (scan : DiffScan V) (state : LiveDiffState V) (key : String) (row : Row V) :
    DiffScan V :=
  if scan.nextMap.has key then scan
  else
    let scan := { scan with nextMap := scan.nextMap.set key row, order := scan.order ++ [key] }
    match state.previous.get? key with
    | none => { scan with added := scan.added ++ [(key, row)] }
    | some prior =>
      if rowsEqual prior row then scan else { scan with changed := scan.changed ++ [(key, row)] }

def computeLiveDiff (rendering : Rendering V) (state : LiveDiffState V) (nextRows : List (Row V)) :
    Option (LiveDiff V × LiveDiffState V) := do
  let scan ← nextRows.foldlM (fun scan row => do
    let key ← rowKey rendering row state.pkColumns
    pure (scan.visit state key row)) (⟨[], [], [], OrdMap.empty⟩ : DiffScan V)
  let removed := state.previous.keys.filter fun key => !scan.nextMap.has key
  pure (⟨scan.order, scan.added, scan.changed, removed⟩, { state with previous := scan.nextMap })

/-! ### The materializer -/

structure LiveRowsMaterializer (V : Type) where
  byKey : OrdMap String (Row V)
  rows : List (Row V)

def LiveRowsMaterializer.seed (rendering : Rendering V) (pkColumns : Option (List String))
    (initialRows : List (Row V)) : Option (LiveRowsMaterializer V) := do
  let byKey ← initialRows.foldlM (fun byKey row => do
    let key ← rowKey rendering row pkColumns
    pure (byKey.set key row)) OrdMap.empty
  pure ⟨byKey, initialRows⟩

def LiveRowsMaterializer.apply (m : LiveRowsMaterializer V) (diff : LiveDiff V) :
    LiveRowsMaterializer V :=
  let byKey := diff.removed.foldl OrdMap.delete m.byKey
  let byKey := diff.added.foldl (fun byKey e => byKey.set e.1 e.2) byKey
  let byKey := diff.changed.foldl (fun byKey e => byKey.set e.1 e.2) byKey
  ⟨byKey, diff.order.filterMap byKey.get?⟩

/-! ### What is folded is what was diffed -/

omit [DecidableEq V] in
/-- A loop over rows whose keys are known does not throw. -/
theorem foldlM_rowKey {B : Type} (f : B → String → Row V → B) (b : B)
    {pairs : List (String × Row V)}
    (h : ∀ e ∈ pairs, rowKey rendering e.2 pkColumns = some e.1) :
    (pairs.map Prod.snd).foldlM (fun b row => do
      let key ← rowKey rendering row pkColumns
      pure (f b key row)) b = some (pairs.foldl (fun b e => f b e.1 e.2) b) := by
  induction pairs generalizing b with
  | nil => rfl
  | cons e pairs ih =>
    rw [List.map_cons, List.foldlM_cons, h e List.mem_cons_self]
    exact ih (f b e.1 e.2) fun e' he' => h e' (List.mem_cons_of_mem _ he')

omit [DecidableEq V] in
theorem seedLiveDiffState_eq {rows : List (Row V)} {pairs : List (String × Row V)}
    (h : KeyedAs rendering pkColumns rows pairs) :
    ∃ previous, seedLiveDiffState rendering rows pkColumns = some ⟨pkColumns, previous⟩ ∧
      previous.entries = pairs := by
  have hset := foldlM_rowKey (fun (m : OrdMap String (Row V)) k row => m.set k row) OrdMap.empty
    h.keys
  refine ⟨pairs.foldl (fun m e => m.set e.1 e.2) OrdMap.empty, ?_, ?_⟩
  · rw [seedLiveDiffState, ← h.rows, hset]
    rfl
  · exact OrdMap.entries_foldl_set h.nodup

def LiveDiffState.isNew (state : LiveDiffState V) (e : String × Row V) : Bool :=
  (state.previous.get? e.1).isNone

def LiveDiffState.isChanged (state : LiveDiffState V) (e : String × Row V) : Bool :=
  match state.previous.get? e.1 with
  | none => false
  | some prior => !rowsEqual prior e.2

theorem foldl_visit (state : LiveDiffState V) {pairs : List (String × Row V)} (scan : DiffScan V)
    (h : ((scan.nextMap.entries ++ pairs).map Prod.fst).Nodup) :
    let result := pairs.foldl (fun scan e => scan.visit state e.1 e.2) scan
    result.order = scan.order ++ pairs.map Prod.fst ∧
      result.added = scan.added ++ pairs.filter state.isNew ∧
      result.changed = scan.changed ++ pairs.filter state.isChanged ∧
      result.nextMap.entries = scan.nextMap.entries ++ pairs := by
  induction pairs generalizing scan with
  | nil => simp
  | cons e pairs ih =>
    obtain ⟨key, row⟩ := e
    have hnew : scan.nextMap.get? key = none := by
      rw [OrdMap.get?_eq_none_iff]
      rw [List.map_append, List.map_cons] at h
      exact fun hmem => (List.nodup_append.mp h).2.2 _ hmem _ List.mem_cons_self rfl
    have hvisit : scan.visit state key row =
        { order := scan.order ++ [key]
          added := scan.added ++ [(key, row)].filter state.isNew
          changed := scan.changed ++ [(key, row)].filter state.isChanged
          nextMap := scan.nextMap.set key row } := by
      unfold DiffScan.visit
      rw [if_neg (by simp [OrdMap.has, hnew])]
      cases hprior : state.previous.get? key with
      | none => simp [LiveDiffState.isNew, LiveDiffState.isChanged, hprior]
      | some prior =>
        cases hequal : rowsEqual prior row <;>
          simp [LiveDiffState.isNew, LiveDiffState.isChanged, hprior, hequal]
    have hentries := OrdMap.entries_set_of_none hnew row
    have hrest := ih (scan.visit state key row) (by
      rw [hvisit, hentries, List.append_assoc]
      exact h)
    rw [hvisit] at hrest
    dsimp only at hrest
    rw [hentries] at hrest
    obtain ⟨horder, hadded, hchanged, hnext⟩ := hrest
    have hcons : (key, row) :: pairs = [(key, row)] ++ pairs := rfl
    rw [List.foldl_cons, hvisit, hcons, List.filter_append, List.filter_append]
    refine ⟨horder.trans ?_, hadded.trans ?_, hchanged.trans ?_, hnext.trans ?_⟩ <;>
      simp only [List.map_append, List.map_cons, List.map_nil, List.append_assoc]

theorem computeLiveDiff_eq {state : LiveDiffState V} {rows : List (Row V)}
    {pairs : List (String × Row V)} (h : KeyedAs rendering state.pkColumns rows pairs) :
    ∃ diff next, computeLiveDiff rendering state rows = some (diff, ⟨state.pkColumns, next⟩) ∧
      next.entries = pairs ∧ diff.order = pairs.map Prod.fst ∧
      diff.added = pairs.filter state.isNew ∧ diff.changed = pairs.filter state.isChanged ∧
      diff.removed = state.previous.keys.filter fun key => !next.has key := by
  have hscan := foldlM_rowKey (fun (scan : DiffScan V) k row => scan.visit state k row)
    ⟨[], [], [], OrdMap.empty⟩ h.keys
  have hvisit := foldl_visit state ⟨[], [], [], OrdMap.empty⟩ h.nodup
  generalize pairs.foldl (fun (scan : DiffScan V) e => scan.visit state e.1 e.2) _ = scan
    at hscan hvisit
  obtain ⟨horder, hadded, hchanged, hnext⟩ := hvisit
  refine ⟨⟨scan.order, scan.added, scan.changed, _⟩, scan.nextMap, ?_, hnext, horder, hadded,
    hchanged, rfl⟩
  rw [computeLiveDiff, ← h.rows, hscan]
  rfl

/-- The materializer holds what the diff state remembers. -/
structure Mirrors (m : LiveRowsMaterializer V) (previous : OrdMap String (Row V)) : Prop where
  byKey : ∀ key, Option.Rel SameRow (m.byKey.get? key) (previous.get? key)
  rows : List.Forall₂ SameRow m.rows (previous.entries.map Prod.snd)

omit [DecidableEq V] in
theorem forall₂_of_get? {byKey : OrdMap String (Row V)} {pairs : List (String × Row V)}
    (h : ∀ e ∈ pairs, ∃ row, byKey.get? e.1 = some row ∧ SameRow row e.2) :
    List.Forall₂ SameRow ((pairs.map Prod.fst).filterMap byKey.get?) (pairs.map Prod.snd) := by
  induction pairs with
  | nil => exact List.Forall₂.nil
  | cons e pairs ih =>
    obtain ⟨row, hget, hsame⟩ := h e List.mem_cons_self
    rw [List.map_cons, List.filterMap_cons_some hget, List.map_cons]
    exact List.Forall₂.cons hsame (ih fun e' he' => h e' (List.mem_cons_of_mem _ he'))

omit [DecidableEq V] in
theorem seed_mirrors {rows : List (Row V)} {previous : OrdMap String (Row V)}
    (h : KeyedAs rendering pkColumns rows previous.entries) :
    ∃ m, LiveRowsMaterializer.seed rendering pkColumns rows = some m ∧ Mirrors m previous := by
  have hset := foldlM_rowKey (fun (m : OrdMap String (Row V)) k row => m.set k row) OrdMap.empty
    h.keys
  have hsame : previous.entries.foldl (fun m e => m.set e.1 e.2) OrdMap.empty = previous :=
    OrdMap.ext_entries (OrdMap.entries_foldl_set h.nodup)
  refine ⟨⟨previous, rows⟩, ?_, fun key => ?_, ?_⟩
  · rw [LiveRowsMaterializer.seed, ← h.rows, hset, hsame]
    rfl
  · cases previous.get? key with
    | none => exact Option.Rel.none
    | some row => exact Option.Rel.some (SameRow.refl row)
  · rw [h.rows]
    exact List.forall₂_same.2 fun row _ => SameRow.refl row

theorem Mirrors.apply {m : LiveRowsMaterializer V} {state : LiveDiffState V}
    (hm : Mirrors m state.previous) {diff : LiveDiff V} {next : OrdMap String (Row V)}
    (horder : diff.order = next.keys) (hadded : diff.added = next.entries.filter state.isNew)
    (hchanged : diff.changed = next.entries.filter state.isChanged)
    (hremoved : diff.removed = state.previous.keys.filter fun key => !next.has key) :
    Mirrors (m.apply diff) next := by
  have hnodup : ∀ p : String × Row V → Bool, ((next.entries.filter p).map Prod.fst).Nodup :=
    fun p => (List.filter_sublist.map _).nodup next.nodup
  have hget : ∀ key, (m.apply diff).byKey.get? key =
      ((next.get? key).filter fun row => state.isChanged (key, row)).or
        (((next.get? key).filter fun row => state.isNew (key, row)).or
          (if key ∈ diff.removed then none else m.byKey.get? key)) := by
    intro key
    change OrdMap.get? (diff.changed.foldl _ (diff.added.foldl _ (diff.removed.foldl _ _))) key = _
    rw [hchanged, hadded, OrdMap.get?_foldl_set (hnodup _), OrdMap.get?_foldl_set (hnodup _),
      OrdMap.get?_foldl_delete, OrdMap.lookup_filter, OrdMap.lookup_filter]
  have hbyKey : ∀ key, Option.Rel SameRow ((m.apply diff).byKey.get? key) (next.get? key) := by
    intro key
    have hrel := hm.byKey key
    cases hnext : next.get? key with
    | none =>
      suffices hgone : (m.apply diff).byKey.get? key = none by
        rw [hgone]
        exact Option.Rel.none
      rw [hget, hnext, Option.filter_none, Option.filter_none, Option.none_or, Option.none_or]
      cases hprior : state.previous.get? key with
      | some prior =>
        have hremoves : key ∈ diff.removed := by
          rw [hremoved, List.mem_filter]
          exact ⟨OrdMap.mem_keys_iff.2 ⟨prior, hprior⟩, by simp [OrdMap.has, hnext]⟩
        exact if_pos hremoves
      | none =>
        rw [hprior] at hrel
        cases hmine : m.byKey.get? key with
        | none => exact ite_self none
        | some mine =>
          rw [hmine] at hrel
          cases hrel
    | some row =>
      suffices hmine : ∃ mine, (m.apply diff).byKey.get? key = some mine ∧ SameRow mine row by
        obtain ⟨mine, hmine, hsame⟩ := hmine
        rw [hmine]
        exact Option.Rel.some hsame
      rw [hget, hnext, Option.filter_some, Option.filter_some]
      cases hprior : state.previous.get? key with
      | none =>
        refine ⟨row, ?_, SameRow.refl row⟩
        simp [LiveDiffState.isChanged, LiveDiffState.isNew, hprior]
      | some prior =>
        cases hequal : rowsEqual prior row with
        | false =>
          refine ⟨row, ?_, SameRow.refl row⟩
          simp [LiveDiffState.isChanged, hprior, hequal]
        | true =>
          have hkept : key ∉ diff.removed := by
            rw [hremoved, List.mem_filter]
            exact fun h => absurd h.2 (by simp [OrdMap.has, hnext])
          rw [hprior] at hrel
          cases hmine : m.byKey.get? key with
          | none =>
            rw [hmine] at hrel
            cases hrel
          | some mine =>
            rw [hmine] at hrel
            cases hrel with
            | some hsame =>
              refine ⟨mine, ?_, hsame.trans (sameRow_of_rowsEqual hequal)⟩
              simp [LiveDiffState.isChanged, LiveDiffState.isNew, hprior, hequal, hkept]
  refine ⟨hbyKey, ?_⟩
  have hrows : (m.apply diff).rows =
      (next.entries.map Prod.fst).filterMap (m.apply diff).byKey.get? := by
    change diff.order.filterMap _ = _
    rw [horder]
    rfl
  rw [hrows]
  refine forall₂_of_get? fun e he => ?_
  have hrel := hbyKey e.1
  rw [OrdMap.get?_eq_some_iff.2 he] at hrel
  cases hmine : (m.apply diff).byKey.get? e.1 with
  | none =>
    rw [hmine] at hrel
    cases hrel
  | some row =>
    rw [hmine] at hrel
    cases hrel with
    | some hsame => exact ⟨row, rfl, hsame⟩

end LiveQueries
