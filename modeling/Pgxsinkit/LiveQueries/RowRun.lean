/-
Results of a live query and the rows that are shown for them.

As long as the rows of each result have different key texts, every result is shown as it is.  A row whose
cells are unchanged keeps its object when none of them is an object itself, for an object is another one
in each result.
-/
import Pgxsinkit.LiveQueries.RowObjects

namespace LiveQueries.Objects

open Copy KeyedDiff

variable {host : Host} {pkColumns : List Text} {rows : List RowObject}
  {entries : List (Text × RowObject)}

/-! ### Keys -/

/-- Every row has a key text, and no two rows have the same. -/
def Keyed (host : Host) (pkColumns : List Text) (rows : List RowObject) : Prop :=
  (∀ row ∈ rows, (rowKey host row pkColumns).isSome = true) ∧
    (rows.map fun row => rowKey host row pkColumns).Nodup

theorem keyed_eq (h : keyed host rows pkColumns = some entries) :
    entries.map Prod.snd = rows ∧ ∀ e ∈ entries, rowKey host e.2 pkColumns = some e.1 := by
  induction rows generalizing entries with
  | nil =>
    obtain rfl := Option.some.inj h
    exact ⟨rfl, fun e he => by cases he⟩
  | cons row rows ih =>
    rw [keyed, List.mapM_cons] at h
    obtain ⟨entry, hentry, h⟩ := Option.bind_eq_some_iff.mp h
    obtain ⟨key, hkey, rfl⟩ := Option.map_eq_some_iff.mp hentry
    obtain ⟨rest, hrest, h⟩ := Option.bind_eq_some_iff.mp h
    obtain rfl := Option.some.inj h
    obtain ⟨hrows, hkeys⟩ := ih hrest
    exact ⟨by rw [List.map_cons, hrows], List.forall_mem_cons.mpr ⟨hkey, hkeys⟩⟩

theorem Keyed.exists_entries (h : Keyed host pkColumns rows) :
    ∃ entries, keyed host rows pkColumns = some entries ∧ (entries.map Prod.fst).Nodup := by
  have hdefined : ∃ entries, keyed host rows pkColumns = some entries := by
    have hall := h.1
    clear h
    induction rows with
    | nil => exact ⟨[], rfl⟩
    | cons row rows ih =>
      obtain ⟨key, hkey⟩ := Option.isSome_iff_exists.mp (hall row List.mem_cons_self)
      obtain ⟨rest, hrest⟩ := ih fun row' hin => hall row' (List.mem_cons_of_mem _ hin)
      refine ⟨(key, row) :: rest, ?_⟩
      rw [keyed] at hrest ⊢
      rw [List.mapM_cons, hkey, hrest]
      rfl
  obtain ⟨entries, hentries⟩ := hdefined
  obtain ⟨hrows, hkeys⟩ := keyed_eq hentries
  refine ⟨entries, hentries, List.Nodup.of_map some ?_⟩
  have hmap : (entries.map Prod.fst).map some = rows.map fun row => rowKey host row pkColumns := by
    rw [← hrows, List.map_map, List.map_map]
    exact List.map_congr_left fun e he => (hkeys e he).symm
  rw [hmap]
  exact h.2

theorem cellString_congr {cell cell' : Option Cell} (h : Option.Rel (SameValue host) cell cell') :
    cellString host cell = cellString host cell' := by
  cases h with
  | none => rfl
  | some hsame =>
    cases hsame with
    | primitive value => rfl
    | object hheap => rw [cellString, cellString, hheap]

/-- A key text depends on the values only. -/
theorem rowKey_congr {a b : RowObject} (h : Unchanged host a b) :
    rowKey host a pkColumns = rowKey host b pkColumns := by
  have hcells : (fun col => cellString host (a.cells.get? col)) =
      fun col => cellString host (b.cells.get? col) :=
    funext fun col => cellString_congr (h col trivial)
  rw [rowKey, hcells]
  rfl

/-! ### Cells -/

theorem SameRow.refl (a : RowObject) : SameRow a a := fun _ => rfl

theorem SameRow.trans {a b c : RowObject} (h : SameRow a b) (h' : SameRow b c) : SameRow a c :=
  fun column => (h column).trans (h' column)

/-- `rowsEqual` says whether the cells are the same. -/
theorem rowsEqual_iff {a b : RowObject} : rowsEqual a b = true ↔ SameRow a b := by
  rw [rowsEqual, Bool.and_eq_true, beq_iff_eq, List.all_eq_true]
  constructor
  · rintro ⟨hsize, hcells⟩
    have hsub : ∀ {column cell}, a.cells.get? column = some cell → b.cells.get? column = some cell :=
      fun hget => beq_iff_eq.mp (hcells _ (OrdMap.get?_eq_some_iff.mp hget))
    intro column
    cases hget : a.cells.get? column with
    | some cell => exact (hsub hget).symm
    | none =>
      rw [eq_comm, OrdMap.get?_eq_none_iff]
      -- equally many columns, and those of `a` among them
      have hkeys : a.cells.keys ⊆ b.cells.keys := by
        intro k hk
        obtain ⟨cell, hcell⟩ := OrdMap.mem_keys_iff.mp hk
        exact OrdMap.mem_keys_iff.mpr ⟨cell, hsub hcell⟩
      have hlength : b.cells.keys.length ≤ a.cells.keys.length := by
        rw [OrdMap.length_keys, OrdMap.length_keys]
        exact hsize.ge
      have hperm := (List.subperm_of_subset a.cells.keys_nodup hkeys).perm_of_length_le hlength
      exact fun hmem => OrdMap.get?_eq_none_iff.mp hget (hperm.mem_iff.mpr hmem)
  · intro h
    refine ⟨OrdMap.size_congr h, fun e he => beq_iff_eq.mpr ?_⟩
    rw [← h e.1]
    exact OrdMap.get?_eq_some_iff.mpr he

/-- An unchanged row that holds no objects has the same cells. -/
theorem Unchanged.sameRow {a b : RowObject} (h : Unchanged host a b)
    (hplain : ∀ column ref, b.cells.get? column ≠ some (.object ref)) : SameRow a b := by
  intro column
  have hcol := h column trivial
  cases hb : b.cells.get? column with
  | none =>
    cases ha : a.cells.get? column with
    | none => rfl
    | some cell =>
      rw [ha, hb] at hcol
      cases hcol
  | some cell =>
    cases ha : a.cells.get? column with
    | none =>
      rw [ha, hb] at hcol
      cases hcol
    | some cell' =>
      rw [ha, hb] at hcol
      cases hcol with
      | some hsame =>
        cases hsame with
        | primitive value => rfl
        | object => exact absurd hb (hplain column _)

/-! ### One result after another -/

/-- No row that is unchanged since the result before holds an object. -/
def NoObjectKept (host : Host) (before after : List RowObject) : Prop :=
  ∀ a ∈ before, ∀ b ∈ after, Unchanged host a b →
    ∀ column ref, b.cells.get? column ≠ some (.object ref)

/-- Both sides after a result. -/
structure Shows (host : Host) (pkColumns : List Text) (state : LiveDiffState) (m : LiveRowsMaterializer)
    (rows : List RowObject) : Prop where
  columns : state.pkColumns = pkColumns
  entries : keyed host rows pkColumns = some state.previous.entries
  follows : Follows SameRow m.byKey state.previous
  rows : m.rows = shown m.byKey state.previous.entries

theorem shown_self (byKey : OrdMap Text RowObject) :
    shown byKey byKey.entries = byKey.entries.map Prod.snd := by
  have hget : ∀ e ∈ byKey.entries, byKey.get? e.1 = some e.2 := fun e he => OrdMap.get?_eq_some_iff.mpr he
  have hcongr : byKey.entries.filterMap (byKey.get? ∘ Prod.fst) = byKey.entries.filterMap fun e => some e.2 :=
    List.filterMap_congr hget
  rw [shown, List.filterMap_map, hcongr]
  exact congrFun List.filterMap_eq_map _

theorem exists_key_of_mem_zip {shown : List RowObject} {p : RowObject × RowObject}
    (hrows : entries.map Prod.snd = rows) (h : p ∈ rows.zip shown) :
    ∃ key, ((key, p.1), p.2) ∈ entries.zip shown := by
  rw [← hrows, List.zip_map_left, List.mem_map] at h
  obtain ⟨⟨⟨key, row⟩, row'⟩, hmem, rfl⟩ := h
  exact ⟨key, hmem⟩

theorem seed_shows (h : Keyed host pkColumns rows) :
    ∃ state m, seedLiveDiffState host rows pkColumns = some state ∧
      LiveRowsMaterializer.seed host pkColumns rows = some m ∧ Shows host pkColumns state m rows := by
  obtain ⟨entries, hentries, hnodup⟩ := h.exists_entries
  have hseed : (seed entries).entries = entries := OrdMap.entries_foldl_set hnodup
  refine ⟨⟨pkColumns, seed entries⟩, ⟨pkColumns, seed entries, rows⟩, ?_, ?_, rfl, ?_, ?_, ?_⟩
  · rw [seedLiveDiffState, hentries]
    rfl
  · rw [LiveRowsMaterializer.seed, hentries]
    rfl
  · rw [hseed]
    exact hentries
  · exact seed_follows SameRow.refl _
  · show rows = shown (seed entries) (seed entries).entries
    rw [shown_self, hseed]
    exact (keyed_eq hentries).1.symm

theorem Shows.same {state : LiveDiffState} {m : LiveRowsMaterializer} (h : Shows host pkColumns state m rows) :
    List.Forall₂ SameRow m.rows rows := by
  have hsame := h.follows.shown_same rfl
  rw [(keyed_eq h.entries).1] at hsame
  rw [h.rows]
  exact hsame

theorem Shows.step {state : LiveDiffState} {m : LiveRowsMaterializer} {before : List RowObject}
    (hshows : Shows host pkColumns state m before) (h : Keyed host pkColumns rows)
    (hkept : NoObjectKept host before rows) :
    ∃ diff state', computeLiveDiff host state rows = some (diff, state') ∧
      Shows host pkColumns state' (m.apply diff) rows ∧
      Keeps host (before, m.rows) (rows, (m.apply diff).rows) := by
  obtain ⟨entries, hentries, hnodup⟩ := h.exists_entries
  obtain ⟨hrows, hkeys⟩ := keyed_eq hentries
  obtain ⟨hrows', hkeys'⟩ := keyed_eq hshows.entries
  have hequal : ∀ a b, rowsEqual a b = true → SameRow a b := fun a b => rowsEqual_iff.mp
  have hnext := diff_next rowsEqual state.previous hnodup
  have hstep := hshows.follows.step SameRow.refl (fun _ _ _ => SameRow.trans) hequal hnodup
  have hfold : (m.apply (diff rowsEqual state.previous entries).1).rows = shown _ entries :=
    fold_shown hnodup
  refine ⟨(diff rowsEqual state.previous entries).1,
    { state with previous := (diff rowsEqual state.previous entries).2 }, ?_, ⟨hshows.columns, ?_, hstep, ?_⟩, ?_⟩
  · rw [computeLiveDiff, hshows.columns, hentries]
    rfl
  · rw [hnext]
    exact hentries
  · rw [hfold, hnext]
    rfl
  · -- an unchanged row has the key it had, and the cells it had
    intro p hp q hq hunchanged
    have hp' : ∃ key, ((key, p.1), p.2) ∈ state.previous.entries.zip (shown m.byKey state.previous.entries) := by
      rw [hshows.rows] at hp
      exact exists_key_of_mem_zip hrows' hp
    have hq' : ∃ key, ((key, q.1), q.2) ∈ entries.zip
        (shown (fold m.byKey (diff rowsEqual state.previous entries).1).1 entries) := by
      rw [hfold] at hq
      exact exists_key_of_mem_zip hrows hq
    obtain ⟨key, hp'⟩ := hp'
    obtain ⟨key', hq'⟩ := hq'
    have hkey : key = key' := by
      have hfirst := hkeys' _ (List.of_mem_zip hp').1
      have hsecond := hkeys _ (List.of_mem_zip hq').1
      rw [rowKey_congr hunchanged, hsecond] at hfirst
      exact (Option.some.inj hfirst).symm
    have hsame : rowsEqual p.1 q.1 = true := rowsEqual_iff.mpr (hunchanged.sameRow
      (hkept p.1 (List.of_mem_zip hp).1 q.1 (List.of_mem_zip hq).1 hunchanged))
    exact hshows.follows.kept SameRow.refl (fun _ _ _ => SameRow.trans) hequal rfl hnodup hp' hq' hkey hsame

/-- The results that come later. -/
theorem showResults_exact {results : List (List RowObject)} {state : LiveDiffState}
    {m : LiveRowsMaterializer} {before : List RowObject} (hshows : Shows host pkColumns state m before)
    (hkeyed : ∀ rows ∈ results, Keyed host pkColumns rows)
    (hkept : (before :: results).IsChain (NoObjectKept host)) :
    ∃ later, showResults host state m results = some later ∧
      List.Forall₂ (List.Forall₂ SameRow) later results ∧
      ((before, m.rows) :: results.zip later).IsChain (Keeps host) := by
  induction results generalizing state m before with
  | nil => exact ⟨[], rfl, List.Forall₂.nil, List.isChain_singleton _⟩
  | cons rows results ih =>
    rw [List.isChain_cons_cons] at hkept
    obtain ⟨diff, state', hdiff, hshows', hkeeps⟩ :=
      hshows.step (hkeyed rows List.mem_cons_self) hkept.1
    obtain ⟨later, hlater, hsame, hchain⟩ :=
      ih hshows' (fun rows' hin => hkeyed rows' (List.mem_cons_of_mem _ hin)) hkept.2
    refine ⟨(m.apply diff).rows :: later, ?_, List.Forall₂.cons hshows'.same hsame, ?_⟩
    · rw [showResults, hdiff]
      show (showResults host state' (m.apply diff) results).bind _ = _
      rw [hlater]
      rfl
    · rw [List.zip_cons_cons, List.isChain_cons_cons]
      exact ⟨hkeeps, hchain⟩

/-- Every result is shown as it is, and unchanged rows keep their objects, in every run in which the rows of
each result have different key texts and no unchanged row holds an object. -/
theorem liveRows_exact (host : Host) (pkColumns : List Text) (first : List RowObject)
    (results : List (List RowObject)) (hkeyed : ∀ rows ∈ first :: results, Keyed host pkColumns rows)
    (hkept : (first :: results).IsChain (NoObjectKept host)) :
    ∃ shown, liveRows host pkColumns first results = some shown ∧ Exact host (first :: results) shown := by
  obtain ⟨state, m, hstate, hm, hshows⟩ := seed_shows (hkeyed first List.mem_cons_self)
  obtain ⟨later, hlater, hsame, hchain⟩ :=
    showResults_exact hshows (fun rows hin => hkeyed rows (List.mem_cons_of_mem _ hin)) hkept
  refine ⟨m.rows :: later, ?_, List.Forall₂.cons hshows.same hsame, hchain⟩
  rw [liveRows, hstate, hm]
  show (showResults host state m results).bind _ = _
  rw [hlater]
  rfl

/-! ### Results that break it -/

def namedRow (ref : ℕ) (name : Cell) : RowObject := ⟨ref, OrdMap.empty.set (text "name") name⟩

/-- Midnight of the first of January 1970, in every object. -/
def epochHost : Host := ⟨fun _ => .date (some 0), fun _ => text "Thu Jan 01 1970 00:00:00 GMT+0000"⟩

/-- A row that is added to another. -/
theorem liveRows_exact_two :
    ∃ shown, liveRows epochHost [text "name"] [namedRow 0 (.primitive (.string (text "a")))]
        [[namedRow 1 (.primitive (.string (text "a"))), namedRow 2 (.primitive .null)]] = some shown ∧
      Exact epochHost [[namedRow 0 (.primitive (.string (text "a")))],
        [namedRow 1 (.primitive (.string (text "a"))), namedRow 2 (.primitive .null)]] shown := by
  refine liveRows_exact epochHost [text "name"] _ _ ?_ ?_
  · intro rows hrows
    rcases List.mem_pair.mp hrows with rfl | rfl
    · exact ⟨by decide, by decide⟩
    · exact ⟨by decide, by decide⟩
  · rw [List.isChain_pair]
    intro a ha b hb _ column ref hget
    have hmem := OrdMap.get?_eq_some_iff.mp hget
    rcases List.mem_pair.mp hb with rfl | rfl
    · cases List.mem_singleton.mp hmem
    · cases List.mem_singleton.mp hmem

/-- A null, and the word for it. -/
def nullAndWord : List RowObject :=
  [namedRow 0 (.primitive .null), namedRow 1 (.primitive (.string (text "null")))]

theorem distinctKeys_nullAndWord : DistinctKeys epochHost [text "name"] nullAndWord := by
  rw [DistinctKeys, nullAndWord, List.pairwise_pair]
  intro h
  have hname := h (text "name") List.mem_cons_self
  have hnull : (namedRow 0 (.primitive .null)).cells.get? (text "name") = some (.primitive .null) := rfl
  have hword : (namedRow 1 (.primitive (.string (text "null")))).cells.get? (text "name") =
      some (.primitive (.string (text "null"))) := rfl
  rw [hnull, hword] at hname
  cases hname with
  | some hsame => cases hsame

/-- The same date in another object. -/
theorem unchanged_epoch :
    Unchanged epochHost (namedRow 0 (.object 0)) (namedRow 1 (.object 1)) := by
  intro column _
  have hget : ∀ ref object, (namedRow ref (.object object)).cells.get? column =
      if column = text "name" then some (.object object) else none :=
    fun ref object => OrdMap.get?_set OrdMap.empty (text "name") (Cell.object object) column
  rw [hget, hget]
  split
  · exact Option.Rel.some (.object rfl)
  · exact Option.Rel.none

/-- Of a null and the word for it only the first is shown, and a row with a date is another object in each
result. -/
theorem liveRows_breaks :
    (DistinctKeys epochHost [text "name"] nullAndWord ∧
      ¬ ∃ shown, liveRows epochHost [text "name"] [] [nullAndWord] = some shown ∧
        Exact epochHost [[], nullAndWord] shown) ∧
      ¬ ∃ shown, liveRows epochHost [text "name"] [namedRow 0 (.object 0)] [[namedRow 1 (.object 1)]] =
          some shown ∧
        Exact epochHost [[namedRow 0 (.object 0)], [namedRow 1 (.object 1)]] shown := by
  refine ⟨⟨distinctKeys_nullAndWord, ?_⟩, ?_⟩
  · rintro ⟨shown, hrun, hexact⟩
    have hshown : liveRows epochHost [text "name"] [] [nullAndWord] =
        some [[], [namedRow 0 (.primitive .null)]] := rfl
    obtain rfl := Option.some.inj (hshown.symm.trans hrun)
    have hrows := hexact.rows.get (i := 1) (by decide) (by decide)
    exact absurd hrows.length_eq (by decide)
  · rintro ⟨shown, hrun, hexact⟩
    have hshown : liveRows epochHost [text "name"] [namedRow 0 (.object 0)] [[namedRow 1 (.object 1)]] =
        some [[namedRow 0 (.object 0)], [namedRow 1 (.object 1)]] := rfl
    obtain rfl := Option.some.inj (hshown.symm.trans hrun)
    have hkeeps := List.isChain_pair.mp hexact.kept (namedRow 0 (.object 0), namedRow 0 (.object 0))
      List.mem_cons_self (namedRow 1 (.object 1), namedRow 1 (.object 1)) List.mem_cons_self unchanged_epoch
    exact absurd (congrArg RowObject.ref hkeeps) (by decide)

end LiveQueries.Objects
