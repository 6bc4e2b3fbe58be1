/-
Shapes that share a table.

Every shape of the table carries one scope of the server's table; its cursor says which
part of its stream is applied, and so which rows it holds (`contents`).  A commit is a
sequence of writes of the shapes to the table (`tableWrites`), in map order.  In every run
whose commits take no row away that another shape holds, the table is the union of the
contents, and once every stream is drained it is the server's rows of the scopes.  The run
at the end moves a row from one scope to another: the scope it left deletes it.
-/
import Pgxsinkit.Lib.SharedMap
import Pgxsinkit.Circuits.Delivery
import Pgxsinkit.Circuits.ScopeStream

namespace Circuits

open Checked Runs SharedMap

variable {S V : Type} [LinearOrder S]

/-! ### What a shape holds, and what a commit writes -/

section

variable (group : SyncGroup S V) (streams : S → ShapeStream S V) (tableKey : S)

/-- The shapes of the group that apply to the table. -/
def SyncGroup.shapesOn : List (S × ShapeSpec S V) :=
  group.shapes.entries.filter fun e => e.2.tableKey = tableKey

/-- The scope of a shape, on the rows of the wire. -/
def scopeOf (spec : ShapeSpec S V) (value : OrdMap S V) : Bool :=
  match spec.onMustRefetch with
  | none => true
  | some scope => scope ((group.targets spec.tableKey).insertedRow value)

/-- The rows a shape holds that has applied its stream up to the cursor. -/
def appliedRows (cursor : ShapeCursor S) (key : S) : Option (Row S V) :=
  (netRow (group.targets tableKey) key ((streams cursor.handle).changes.take
    ((streams cursor.handle).position cursor.offset))).getD none

/-- The rows every shape of the table holds, by the cursors of the store. -/
def contents (store : Store S V) (shapeName key : S) : Option (Row S V) :=
  if (group.shapesOn tableKey).any fun e => e.1 = shapeName then
    (store.shapeMetadata.bind fun cursors => cursors shapeName).bind fun cursor =>
      appliedRows group streams tableKey cursor key
  else none

/-- A table as its rows. -/
def rowsOf (table : Table S V) (key : S) : Option (Row S V) := table.get? key

/-- What a commit of the engine writes for one shape. -/
def shapeWrite (engine : Engine S V) (e : S × ShapeSpec S V) : Write S S (Row S V) :=
  { writer := e.1
    clears := if engine.truncateNeeded e.1 then some (e.2.onMustRefetch.getD fun _ => true) else none
    net := fun key => netRow (group.targets e.2.tableKey) key (engine.inbox.peekAll e.1) }

/-- The writes of a commit to the table, in the order of the shape map. -/
def tableWrites (engine : Engine S V) : List (Write S S (Row S V)) :=
  (group.shapesOn tableKey).map (shapeWrite group engine)

/-- The commit of a delivery takes no row of the table away that another shape holds. -/
def SparesCoTenants (w : World S V) : Event S → Prop
  | .deliver shapeName start stop upToDate barrier _ =>
    ∀ engine committing, w.engine = some engine →
      engine.committing group shapeName
        ((streams (engine.streamUrls shapeName)).slice start stop)
        ((streams (engine.streamUrls shapeName)).offset stop) upToDate barrier =
          some committing →
      AllSpare (tableWrites group tableKey committing) (contents group streams tableKey w.store)
        (rowsOf (w.store.tables tableKey))
  | _ => True

end

/-! ### One commit -/

section

variable {group : SyncGroup S V} {streams : S → ShapeStream S V} {tableKey : S} {cols : List S}

theorem mem_shapesOn {e : S × ShapeSpec S V} :
    e ∈ group.shapesOn tableKey ↔ e ∈ group.shapes.entries ∧ e.2.tableKey = tableKey := by
  simp [SyncGroup.shapesOn]

theorem nodup_shapesOn : ((group.shapesOn tableKey).map Prod.fst).Nodup :=
  ((List.filter_sublist).map Prod.fst).nodup group.shapes.nodup

theorem writer_tableWrites (engine : Engine S V) :
    (tableWrites group tableKey engine).map Write.writer =
      (group.shapesOn tableKey).map Prod.fst := by
  rw [tableWrites, List.map_map]
  rfl

/-- A clear that goes through leaves the rows outside the scope. -/
theorem clearShape_rows {name : S} {spec : ShapeSpec S V} {table table' : Table S V}
    (h : clearShape group name spec table = .ok table') (key : S) :
    table'.get? key =
      cleared (some (spec.onMustRefetch.getD fun _ => true)) (rowsOf table) key := by
  rw [clearShape] at h
  split at h
  · rename_i hspec
    obtain rfl := Except.ok.inj h
    cases hrow : rowsOf table key <;> simp [cleared, hspec, hrow]
  · rename_i scope hspec
    rw [assertClearLeftNoResidue] at h
    split at h
    · cases h
    · obtain rfl := Except.ok.inj h
      rw [OrdMap.get?_filter, hspec]
      rfl

/-- A shape that goes through a commit has written to its table what `shapeWrite` says. -/
theorem commitShape_rows (hnodup : (group.targets tableKey).columns.Nodup)
    (hsub : cols ⊆ (group.targets tableKey).columns) {engine : Engine S V}
    {e : S × ShapeSpec S V} (he : e.2.tableKey = tableKey) {bulk : Bool} {table table' : Table S V}
    (hneat : Neat (group.targets tableKey) cols table)
    (hfull : ∀ change ∈ engine.inbox.peekAll e.1, FullRow cols change)
    (h : (commitShape group e.1 e.2 (engine.truncateNeeded e.1) bulk (engine.inbox.peekAll e.1)
      table).2 = .ok table') :
    Neat (group.targets tableKey) cols table' ∧
      ∀ key, table'.get? key = (shapeWrite group engine e).onMap (rowsOf table) key := by
  subst he
  -- the rows the changes are applied to
  have happly : ∀ cleared : Table S V, Neat (group.targets e.2.tableKey) cols cleared →
      (applyShape (group.targets e.2.tableKey) e.1 e.2.insertMethod bulk
        (engine.inbox.peekAll e.1) cleared).2 = .ok table' →
      Neat (group.targets e.2.tableKey) cols table' ∧ ∀ key, table'.get? key =
        (netRow (group.targets e.2.tableKey) key (engine.inbox.peekAll e.1)).getD
          (cleared.get? key) := by
    intro cleared hcleared hshape
    have hrows := applyShape_ok hnodup hsub hcleared hfull hshape
    refine ⟨SameRows.neat (fun key => (hrows key).symm) (neat_applyOrdered hcleared hfull), ?_⟩
    intro key
    rw [hrows key, applyOrdered_apply hcleared hfull]
  cases htruncate : engine.truncateNeeded e.1 with
  | false =>
    rw [htruncate] at h
    have := happly table hneat h
    refine ⟨this.1, fun key => ?_⟩
    rw [this.2 key, Write.onMap, shapeWrite, htruncate]
    rfl
  | true =>
    rw [htruncate, commitShape, if_pos rfl] at h
    split at h
    · cases h
    · rename_i cleared hcleared
      have hrows := clearShape_rows hcleared
      have hneat' : Neat (group.targets e.2.tableKey) cols cleared := by
        intro key row hrow
        rw [hrows key, SharedMap.cleared, Option.filter_eq_some_iff] at hrow
        exact hneat key row hrow.1
      have := happly cleared hneat' h
      refine ⟨this.1, fun key => ?_⟩
      rw [this.2 key, hrows key, Write.onMap, shapeWrite, htruncate]
      rfl

/-- A commit that goes through has written `tableWrites` to the table. -/
theorem commitShapes_rows (hnodup : (group.targets tableKey).columns.Nodup)
    (hsub : cols ⊆ (group.targets tableKey).columns) {engine : Engine S V}
    {shapes : List (S × ShapeSpec S V)}
    (hfull : ∀ e ∈ shapes, e.2.tableKey = tableKey →
      ∀ change ∈ engine.inbox.peekAll e.1, FullRow cols change)
    {bulk : S → Bool} {tables tables' : S → Table S V}
    (hneat : Neat (group.targets tableKey) cols (tables tableKey))
    (h : (commitShapes group engine.truncateNeeded engine.inbox.peekAll shapes bulk tables).2 =
      .ok tables') :
    Neat (group.targets tableKey) cols (tables' tableKey) ∧
      rowsOf (tables' tableKey) =
        onMaps ((shapes.filter fun e => e.2.tableKey = tableKey).map (shapeWrite group engine))
          (rowsOf (tables tableKey)) := by
  induction shapes generalizing bulk tables with
  | nil =>
    obtain rfl := Except.ok.inj h
    exact ⟨hneat, rfl⟩
  | cons e shapes ih =>
    have hrest := fun e' he' => hfull e' (List.mem_cons_of_mem _ he')
    rw [commitShapes] at h
    split at h
    · cases h
    rename_i table hshape
    by_cases he : e.2.tableKey = tableKey
    · have hone := commitShape_rows hnodup hsub he (he ▸ hneat)
        (hfull e List.mem_cons_self he) hshape
      have htable : Function.update tables e.2.tableKey table tableKey = table := by
        rw [he, Function.update_self]
      have := ih hrest (by rw [htable]; exact hone.1) h
      refine ⟨this.1, ?_⟩
      rw [this.2, htable, List.filter_cons_of_pos (by simpa using he), List.map_cons, onMaps,
        show rowsOf table = _ from funext hone.2, he]
    · have htable : Function.update tables e.2.tableKey table tableKey = tables tableKey :=
        Function.update_of_ne (Ne.symm he) _ _
      have := ih hrest (by rw [htable]; exact hneat) h
      refine ⟨this.1, ?_⟩
      rw [this.2, htable, List.filter_cons_of_neg (by simpa using he)]

end

/-! ### The invariant -/

section

variable (group : SyncGroup S V) (streams : S → ShapeStream S V) (tableKey : S) (cols : List S)
  (history : List (ServerWrite S V))

/-- The stream of the url carries the scope of the shape, up to some write of the history. -/
def Carries (spec : ShapeSpec S V) (url : S) : Prop :=
  ∃ start stop, IsScopeStream (scopeOf group spec) history start stop (streams url).changes

/-- The table is the union of what its shapes hold. -/
structure StoreUnited (store : Store S V) : Prop where
  neat : Neat (group.targets tableKey) cols (store.tables tableKey)
  covers : Covers (contents group streams tableKey store) (rowsOf (store.tables tableKey))
  cursor : ∀ e ∈ group.shapesOn tableKey, ∀ cursors, store.shapeMetadata = some cursors →
    ∃ cursor n, cursors e.1 = some cursor ∧
      cursor.offset = (streams cursor.handle).offset n ∧
      n ≤ (streams cursor.handle).changes.length ∧ Carries group streams history e.2 cursor.handle

/-- Every shape of the table reads on from what it holds, or from nothing when it is to
clear it. -/
structure EngineUnited (store : Store S V) (engine : Engine S V) (reader : S → Nat) : Prop where
  carries : ∀ e ∈ group.shapesOn tableKey,
    Carries group streams history e.2 (engine.streamUrls e.1)
  continues : ∀ e ∈ group.shapesOn tableKey,
    ∃ n, Continues streams e.1 cols engine (reader e.1) n ∧
      ∀ key, (netRow (group.targets tableKey) key
        ((streams (engine.streamUrls e.1)).changes.take n)).getD none =
          if engine.truncateNeeded e.1 then none
          else contents group streams tableKey store e.1 key

structure United (w : World S V) : Prop where
  store : StoreUnited group streams tableKey cols history w.store
  engine : ∀ engine, w.engine = some engine →
    EngineUnited group streams tableKey cols history w.store engine w.reader

/-- A subscription grants every shape of the table a stream of its scope. -/
def GrantsScopes : Event S → Prop
  | .subscribe streamUrls => ∀ e ∈ group.shapesOn tableKey,
      Carries group streams history e.2 (streamUrls e.1)
  | _ => True

end

section

variable {group : SyncGroup S V} {streams : S → ShapeStream S V} {tableKey : S} {cols : List S}
  {history : List (ServerWrite S V)}

theorem Carries.fullRows {spec : ShapeSpec S V} {url : S}
    (h : Carries group streams history spec url) (hfull : FullHistory cols history) :
    FullRows streams cols url := by
  obtain ⟨start, stop, hstream⟩ := h
  exact fun change hchange => hstream.fullRow hfull hchange

theorem contents_eq {store : Store S V} {cursors : S → Option (ShapeCursor S)}
    {e : S × ShapeSpec S V} {cursor : ShapeCursor S} (he : e ∈ group.shapesOn tableKey)
    (hmeta : store.shapeMetadata = some cursors) (hcursor : cursors e.1 = some cursor) (key : S) :
    contents group streams tableKey store e.1 key = appliedRows group streams tableKey cursor key := by
  have hany : ((group.shapesOn tableKey).any fun e' => e'.1 = e.1) = true :=
    List.any_eq_true.2 ⟨e, he, by simp⟩
  rw [contents, if_pos hany, hmeta, Option.bind_some, hcursor, Option.bind_some]

theorem contents_none {store : Store S V} (hmeta : store.shapeMetadata = none) (name key : S) :
    contents group streams tableKey store name key = none := by
  rw [contents, hmeta]
  split <;> rfl

theorem EngineUnited.congr {store : Store S V} {engine engine' : Engine S V} {reader : S → Nat}
    (h : EngineUnited group streams tableKey cols history store engine reader)
    (hsame : SameReading engine engine') :
    EngineUnited group streams tableKey cols history store engine' reader := by
  refine ⟨fun e he => ?_, fun e he => ?_⟩
  · rw [hsame.streamUrls]
    exact h.carries e he
  · obtain ⟨n, hc, hbase⟩ := h.continues e he
    refine ⟨n, hc.congr hsame, ?_⟩
    rw [hsame.streamUrls, hsame.truncateNeeded]
    exact hbase

theorem EngineUnited.ingested {store : Store S V} {engine : Engine S V} {reader : S → Nat}
    {shapeName : S} {start stop : Nat} (upToDate : Bool)
    (h : EngineUnited group streams tableKey cols history store engine reader)
    (hfull : FullHistory cols history)
    (hmay : mayDeliver (streams (engine.streamUrls shapeName)) engine shapeName (reader shapeName)
      start stop = true) :
    EngineUnited group streams tableKey cols history store
      (engine.ingested shapeName ((streams (engine.streamUrls shapeName)).slice start stop)
        ((streams (engine.streamUrls shapeName)).offset stop) upToDate)
      (Function.update reader shapeName (max (reader shapeName) stop)) := by
  refine ⟨h.carries, fun e he => ?_⟩
  obtain ⟨n, hc, hbase⟩ := h.continues e he
  refine ⟨n, ?_, hbase⟩
  by_cases hname : shapeName = e.1
  · subst hname
    rw [Function.update_self]
    exact hc.ingested ((h.carries e he).fullRows hfull) hmay
  · rw [Function.update_of_ne (Ne.symm hname)]
    exact hc.ingested_other hname

theorem subscribe_united {store : Store S V} {streamUrls : S → S}
    (h : StoreUnited group streams tableKey cols history store)
    (hgrants : ∀ e ∈ group.shapesOn tableKey, Carries group streams history e.2 (streamUrls e.1)) :
    EngineUnited group streams tableKey cols history store (subscribe group store streamUrls)
      (resumePosition streams store streamUrls) := by
  refine ⟨hgrants, fun e he => ⟨resumePosition streams store streamUrls e.1, ?_⟩⟩
  have hzero : Continues streams e.1 cols (subscribe group store streamUrls) 0 0 :=
    subscribe_continues _ _ (Nat.zero_le _)
  cases hmeta : store.shapeMetadata with
  | none =>
    have hres : isResumable store streamUrls e.1 = false := by simp [isResumable, hmeta]
    have hpos : resumePosition streams store streamUrls e.1 = 0 := by simp [resumePosition, hres]
    rw [hpos]
    refine ⟨hzero, fun key => ?_⟩
    rw [contents_none hmeta, ite_self, List.take_zero]
    rfl
  | some cursors =>
    obtain ⟨cursor, n, hcursor, hoffset, hle, -⟩ := h.cursor e he cursors hmeta
    have hbind : (store.shapeMetadata.bind fun c => c e.1) = some cursor := by
      rw [hmeta]
      exact hcursor
    by_cases hhandle : cursor.handle = streamUrls e.1
    · -- the persisted cursor is on the granted stream: the shape resumes with what it holds
      have hres : isResumable store streamUrls e.1 = true := by simp [isResumable, hbind, hhandle]
      have hpos : resumePosition streams store streamUrls e.1 = n := by
        rw [resumePosition, if_pos hres, hbind, ← hhandle]
        simp only [hoffset, ShapeStream.position_offset]
      have htrunc : (subscribe group store streamUrls).truncateNeeded e.1 = false := by
        simp [subscribe, hres]
      rw [hpos, htrunc]
      refine ⟨subscribe_continues _ _ (hhandle ▸ hle), fun key => ?_⟩
      rw [contents_eq he hmeta hcursor, appliedRows, hoffset, ShapeStream.position_offset, hhandle]
      rfl
    · have hres : isResumable store streamUrls e.1 = false := by simp [isResumable, hbind, hhandle]
      have hpos : resumePosition streams store streamUrls e.1 = 0 := by simp [resumePosition, hres]
      have htrunc : (subscribe group store streamUrls).truncateNeeded e.1 = true := by
        simp [subscribe, hres, hmeta]
      rw [hpos, htrunc]
      refine ⟨hzero, fun key => ?_⟩
      rw [List.take_zero]
      rfl

/-! ### Commits -/

/-- The rows a shape clears before it starts over are rows of its scope. -/
theorem inScope_shapeWrite {store : Store S V} {engine : Engine S V} {e : S × ShapeSpec S V}
    (h : StoreUnited group streams tableKey cols history store)
    (he : e ∈ group.shapesOn tableKey) :
    InScope (shapeWrite group engine e) (contents group streams tableKey store e.1) := by
  intro scope hscope key row hrow
  have htable : e.2.tableKey = tableKey := (mem_shapesOn.1 he).2
  cases hmeta : store.shapeMetadata with
  | none =>
    rw [contents_none hmeta] at hrow
    cases hrow
  | some cursors =>
    obtain ⟨cursor, n, hcursor, -, -, start, stop, hstream⟩ := h.cursor e he cursors hmeta
    rw [contents_eq he hmeta hcursor, appliedRows] at hrow
    obtain ⟨value, rfl, hin⟩ := hstream.inScope_of_netRow hrow
    rw [shapeWrite] at hscope
    dsimp only at hscope
    split at hscope
    · obtain rfl := Option.some.inj hscope
      rw [scopeOf] at hin
      cases hspec : e.2.onMustRefetch with
      | none => rfl
      | some scope =>
        rw [hspec, htable] at hin
        exact hin
    · cases hscope

/-- What a shape holds after its write is what its stream leaves up to the reader. -/
theorem held_shapeWrite {store : Store S V} {engine : Engine S V} {reader n : Nat}
    {e : S × ShapeSpec S V} (he : e ∈ group.shapesOn tableKey)
    (hc : Continues streams e.1 cols engine reader n)
    (hbase : ∀ key, (netRow (group.targets tableKey) key
      ((streams (engine.streamUrls e.1)).changes.take n)).getD none =
        if engine.truncateNeeded e.1 then none
        else contents group streams tableKey store e.1 key) (key : S) :
    (shapeWrite group engine e).held (contents group streams tableKey store e.1) key =
      (netRow (group.targets tableKey) key
        ((streams (engine.streamUrls e.1)).changes.take reader)).getD none := by
  have htable : e.2.tableKey = tableKey := (mem_shapesOn.1 he).2
  have hnet : netRow (group.targets tableKey) key
      ((streams (engine.streamUrls e.1)).changes.take reader) =
        (netRow (group.targets tableKey) key (engine.inbox.peekAll e.1)).or
          (netRow (group.targets tableKey) key
            ((streams (engine.streamUrls e.1)).changes.take n)) := by
    rw [← netRow_append, netRow, netRow, hc.held key]
  have hheld : (shapeWrite group engine e).held (contents group streams tableKey store e.1) key =
      (netRow (group.targets tableKey) key (engine.inbox.peekAll e.1)).getD
        (if engine.truncateNeeded e.1 then none
          else contents group streams tableKey store e.1 key) := by
    rw [Write.held, shapeWrite, htable]
    cases engine.truncateNeeded e.1 <;> rfl
  rw [hheld, hnet, ← hbase key]
  cases netRow (group.targets tableKey) key (engine.inbox.peekAll e.1) <;> rfl

/-- What the shapes hold after a commit, by the cursors it persists. -/
theorem contents_committed {store : Store S V} {engine : Engine S V} {reader : S → Nat}
    (h : EngineUnited group streams tableKey cols history store engine reader)
    (hup : ∀ name ∈ group.shapeNames, engine.inbox.currentlyUpToDate name = true)
    (tables : S → Table S V) :
    contents group streams tableKey ⟨tables, some (pendingCursors group engine)⟩ =
      onAllContents (tableWrites group tableKey engine)
        (contents group streams tableKey store) := by
  funext name
  by_cases hany : ((group.shapesOn tableKey).any fun e => e.1 = name) = true
  · obtain ⟨e, he, hname⟩ := List.any_eq_true.1 hany
    obtain rfl : e.1 = name := by simpa using hname
    have hmem : e.1 ∈ group.shapeNames := List.mem_map_of_mem (mem_shapesOn.1 he).1
    obtain ⟨n, hc, hbase⟩ := h.continues e he
    have hwrites := onAllContents_of_mem (tableWrites group tableKey engine)
      (by rw [writer_tableWrites]; exact nodup_shapesOn)
      (List.mem_map_of_mem (f := shapeWrite group engine) he)
      (contents group streams tableKey store)
    refine Eq.trans (funext fun key => ?_) hwrites.symm
    refine Eq.trans ?_ (held_shapeWrite he hc hbase key).symm
    rw [contents_eq he rfl (hc.pendingCursors (hup e.1 hmem) hmem), appliedRows,
      ShapeStream.position_offset]
  · -- not a shape of the table: it holds nothing and writes nothing
    have hother : ∀ write ∈ tableWrites group tableKey engine, write.writer ≠ name := by
      intro write hwrite heq
      obtain ⟨e, he, rfl⟩ := List.mem_map.1 hwrite
      exact hany (List.any_eq_true.2 ⟨e, he, by simpa [shapeWrite] using heq⟩)
    rw [onAllContents_other hother]
    funext key
    rw [contents, if_neg hany, contents, if_neg hany]

/-- A commit that takes no row of another shape away keeps the table the union. -/
theorem committed_united (hnodup : (group.targets tableKey).columns.Nodup)
    (hsub : cols ⊆ (group.targets tableKey).columns) {store : Store S V} {engine : Engine S V}
    {reader : S → Nat} (hstore : StoreUnited group streams tableKey cols history store)
    (h : EngineUnited group streams tableKey cols history store engine reader)
    (hup : ∀ name ∈ group.shapeNames, engine.inbox.currentlyUpToDate name = true)
    (hspare : AllSpare (tableWrites group tableKey engine)
      (contents group streams tableKey store) (rowsOf (store.tables tableKey)))
    {bulk bulk' : S → Bool} {tables : S → Table S V}
    (hcommit : commitShapes group engine.truncateNeeded engine.inbox.peekAll group.shapes.entries
      bulk store.tables = (bulk', .ok tables)) :
    StoreUnited group streams tableKey cols history
        ⟨tables, some (pendingCursors group engine)⟩ ∧
      EngineUnited group streams tableKey cols history
        ⟨tables, some (pendingCursors group engine)⟩ (engine.committed bulk') reader := by
  have hpersisted : ∀ e ∈ group.shapesOn tableKey, pendingCursors group engine e.1 =
      some ⟨engine.streamUrls e.1, (streams (engine.streamUrls e.1)).offset (reader e.1)⟩ := by
    intro e he
    have hmem : e.1 ∈ group.shapeNames := List.mem_map_of_mem (mem_shapesOn.1 he).1
    obtain ⟨n, hc, -⟩ := h.continues e he
    exact hc.pendingCursors (hup e.1 hmem) hmem
  have hheldFull : ∀ e ∈ group.shapes.entries, e.2.tableKey = tableKey →
      ∀ change ∈ engine.inbox.peekAll e.1, FullRow cols change := by
    intro e he ht
    obtain ⟨n, hc, -⟩ := h.continues e (mem_shapesOn.2 ⟨he, ht⟩)
    exact hc.heldFull
  have hrows := commitShapes_rows hnodup hsub hheldFull hstore.neat (by rw [hcommit])
  constructor
  · refine ⟨hrows.1, ?_, fun e he cursors hcursors => ?_⟩
    · rw [contents_committed h hup tables, show rowsOf (tables tableKey) = _ from hrows.2]
      refine hstore.covers.writes (by rw [writer_tableWrites]; exact nodup_shapesOn) ?_ hspare
      intro write hwrite
      obtain ⟨e, he, rfl⟩ := List.mem_map.1 hwrite
      exact inScope_shapeWrite hstore he
    · obtain rfl := Option.some.inj hcursors
      obtain ⟨n, hc, -⟩ := h.continues e he
      exact ⟨_, reader e.1, hpersisted e he, rfl, hc.reader_le, h.carries e he⟩
  · refine ⟨h.carries, fun e he => ?_⟩
    have hmem : e.1 ∈ group.shapeNames := List.mem_map_of_mem (mem_shapesOn.1 he).1
    obtain ⟨n, hc, -⟩ := h.continues e he
    refine ⟨reader e.1, hc.committed (hup e.1 hmem) bulk', fun key => ?_⟩
    rw [contents_eq he rfl (hpersisted e he), appliedRows, ShapeStream.position_offset]
    rfl

/-! ### Runs -/

theorem step_united (hnodup : (group.targets tableKey).columns.Nodup)
    (hsub : cols ⊆ (group.targets tableKey).columns) (hfull : FullHistory cols history)
    {w w' : World S V} {e : Event S} (h : United group streams tableKey cols history w)
    (hgrants : GrantsScopes group streams tableKey history e)
    (hspare : SparesCoTenants group streams tableKey w e)
    (hstep : step group streams w e = some w') :
    United group streams tableKey cols history w' := by
  cases e with
  | subscribe streamUrls =>
    rw [step] at hstep
    split at hstep
    · obtain rfl := Option.some.inj hstep
      refine ⟨h.store, fun engine he => ?_⟩
      obtain rfl := Option.some.inj he
      exact subscribe_united h.store hgrants
    · cases hstep
  | stop =>
    obtain rfl := Option.some.inj hstep
    exact ⟨h.store, fun engine he => by cases he⟩
  | deliver shapeName start stop upToDate barrier faults =>
    obtain ⟨engine, outcome, hengine, hmay, houtcome, rfl⟩ := step_deliver hstep
    have hingested := (h.engine engine hengine).ingested upToDate hfull hmay
    rcases deliver_cases group engine w.store shapeName _ _ upToDate barrier faults with
      ⟨committing, hcommitting, hsame, hup, hdeliver⟩ | ⟨engine', hsame, hdeliver⟩
    · have hunited := hingested.congr hsame
      rw [hdeliver] at houtcome
      subst houtcome
      rcases commitHeld_cases group (max group.maxCommitRetries 1) faults committing w.store with
        ⟨hstore, bulk, heng⟩ | ⟨bulk, bulk', tables, -, hcommit, heng, hstore⟩
      · constructor
        · dsimp only
          rw [hstore]
          exact h.store
        · intro e he
          obtain rfl := Option.some.inj he
          dsimp only
          rw [hstore, heng]
          exact hunited.congr ⟨rfl, rfl, rfl, rfl, rfl⟩
      · have hkept := committed_united hnodup hsub h.store hunited hup
          (hspare engine committing hengine hcommitting) hcommit
        constructor
        · dsimp only
          rw [hstore]
          exact hkept.1
        · intro e he
          obtain rfl := Option.some.inj he
          dsimp only
          rw [hstore, heng]
          exact hkept.2
    · rw [hdeliver] at houtcome
      subst houtcome
      refine ⟨h.store, fun e he => ?_⟩
      obtain rfl := Option.some.inj he
      exact hingested.congr hsame

theorem initial_united : United group streams tableKey cols history World.initial := by
  refine ⟨⟨Neat.empty _ _, ⟨fun key row hrow => ?_, fun key w hw => ?_⟩, fun e he cursors hc => ?_⟩,
    fun engine he => ?_⟩
  · cases hrow
  · exact absurd (contents_none rfl w key) hw
  · cases hc
  · cases he

end

section

variable (group : SyncGroup S V) (streams : S → ShapeStream S V) (tableKey : S)
  (history : List (ServerWrite S V))

/-- Every shape of the table has applied its stream to the end, and the stream carries the
whole history. -/
def Drained (store : Store S V) : Prop :=
  ∃ cursors, store.shapeMetadata = some cursors ∧
    ∀ e ∈ group.shapesOn tableKey, ∃ cursor start, cursors e.1 = some cursor ∧
      cursor.offset = (streams cursor.handle).offset (streams cursor.handle).changes.length ∧
      IsScopeStream (scopeOf group e.2) history start history.length
        (streams cursor.handle).changes

/-- The server's rows that lie in the scope of some shape of the table. -/
def unionRow (key : S) : Option (Row S V) :=
  ((serverRow history key).filter fun value =>
    (group.shapesOn tableKey).any fun e => scopeOf group e.2 value).map
      (group.targets tableKey).insertedRow

end

/-- On a drained store a shape holds the server's rows of its scope. -/
theorem contents_drained {group : SyncGroup S V} {streams : S → ShapeStream S V} {tableKey : S}
    {history : List (ServerWrite S V)} {store : Store S V}
    (h : Drained group streams tableKey history store) {e : S × ShapeSpec S V}
    (he : e ∈ group.shapesOn tableKey) (key : S) :
    contents group streams tableKey store e.1 key =
      ((serverRow history key).filter (scopeOf group e.2)).map
        (group.targets tableKey).insertedRow := by
  obtain ⟨cursors, hmeta, hshapes⟩ := h
  obtain ⟨cursor, start, hcursor, hoffset, hstream⟩ := hshapes e he
  rw [contents_eq he hmeta hcursor, appliedRows, hoffset, ShapeStream.position_offset,
    List.take_length, hstream.shows, List.take_length]

/-- Co-tenant convergence.  In every run whose commits take no row away that another shape
of the table holds, a drained table is the union of the shapes' contents. -/
theorem coTenants_converge (group : SyncGroup S V) (streams : S → ShapeStream S V) (tableKey : S)
    (cols : List S) (history : List (ServerWrite S V)) (hfull : FullHistory cols history)
    (hnodup : (group.targets tableKey).columns.Nodup)
    (hsub : cols ⊆ (group.targets tableKey).columns) (events : List (Event S))
    (hok : Meets (step group streams) (fun w e => GrantsScopes group streams tableKey history e ∧
      SparesCoTenants group streams tableKey w e) World.initial events)
    (w : World S V) (hrun : run (step group streams) World.initial events = some w)
    (hdrained : Drained group streams tableKey history w.store) (key : S) :
    (w.store.tables tableKey).get? key = unionRow group tableKey history key := by
  have hunited : United group streams tableKey cols history w :=
    invariant (fun _ _ _ hi hok hs => step_united hnodup hsub hfull hi hok.1 hok.2 hs)
      initial_united hok hrun
  -- a row some shape holds is the server's, and lies in the scope of that shape
  have hcontents : ∀ name key row, contents group streams tableKey w.store name key = some row →
      ∃ e ∈ group.shapesOn tableKey, e.1 = name ∧ ∃ value, serverRow history key = some value ∧
        scopeOf group e.2 value = true ∧ (group.targets tableKey).insertedRow value = row := by
    intro name key row hrow
    by_cases hany : ((group.shapesOn tableKey).any fun e => e.1 = name) = true
    · obtain ⟨e, he, hname⟩ := List.any_eq_true.1 hany
      obtain rfl : e.1 = name := by simpa using hname
      rw [contents_drained hdrained he, Option.map_eq_some_iff] at hrow
      obtain ⟨value, hvalue, hrow⟩ := hrow
      rw [Option.filter_eq_some_iff] at hvalue
      exact ⟨e, he, rfl, value, hvalue.1, hvalue.2, hrow⟩
    · rw [contents, if_neg hany] at hrow
      cases hrow
  have hserver : ∀ name key row, contents group streams tableKey w.store name key = some row →
      (serverRow history key).map (group.targets tableKey).insertedRow = some row := by
    intro name key row hrow
    obtain ⟨e, -, -, value, hvalue, -, hrow⟩ := hcontents name key row hrow
    rw [hvalue, Option.map_some, hrow]
  refine Option.ext fun row => ?_
  refine (hunited.store.covers.eq_some_iff hserver).trans ?_
  rw [unionRow, Option.map_eq_some_iff]
  constructor
  · rintro ⟨name, hrow⟩
    obtain ⟨e, he, -, value, hvalue, hin, hrow⟩ := hcontents name key row hrow
    exact ⟨value, Option.filter_eq_some_iff.2 ⟨hvalue, List.any_eq_true.2 ⟨e, he, hin⟩⟩, hrow⟩
  · rintro ⟨value, hvalue, hrow⟩
    rw [Option.filter_eq_some_iff] at hvalue
    obtain ⟨e, he, hin⟩ := List.any_eq_true.1 hvalue.2
    refine ⟨e.1, ?_⟩
    rw [contents_drained hdrained he, hvalue.1, Option.filter_some, if_pos hin, Option.map_some,
      hrow]

/-! ### A row that moves from one scope to another -/

/-- The row `key, scope` over the columns 0 and 1. -/
def pairRow (key scope : ℕ) : OrdMap ℕ ℕ := (OrdMap.empty.set 0 key).set 1 scope

/-- The shapes 0 and 1 on one table: the rows whose column 1 is 1, and those where it is 0. -/
def scopeGroup : SyncGroup ℕ ℕ :=
  { shapes := (OrdMap.empty.set 0 ⟨0, .insert, some fun row => row 1 = 1⟩).set 1
      ⟨0, .insert, some fun row => row 1 = 0⟩
    targets := fun _ => ⟨[0, 1], fun _ => 0, .insert⟩
    maxCommitRetries := 1
    streamStart := 0 }

/-- The row 5 enters the scope of shape 1 and moves to the scope of shape 0. -/
def moveHistory : List (ServerWrite ℕ ℕ) :=
  [⟨5, some (pairRow 5 0)⟩, ⟨5, some (pairRow 5 1)⟩]

def moveStreams (url : ℕ) : ShapeStream ℕ ℕ :=
  if url = 0 then .numbered [⟨5, pairRow 5 1, .upsert⟩]
  else .numbered [⟨5, pairRow 5 0, .upsert⟩, ⟨5, .empty, .delete⟩]

theorem isSnapshot_nil {inScope : OrdMap ℕ ℕ → Bool} : IsSnapshot inScope [] [] := by
  refine ⟨List.nodup_nil, fun change => ⟨fun h => absurd h List.not_mem_nil, ?_⟩⟩
  rintro ⟨-, hrow, -⟩
  cases hrow

/-- Both streams are drained in one commit.  Shape 0 upserts the row, then shape 1 deletes
it by its key. -/
theorem coTenants_move :
    ∃ w, run (step scopeGroup moveStreams) World.initial
        [.subscribe id, .deliver 1 0 2 true (some ⟨0, 0⟩) [],
          .deliver 0 0 1 true (some ⟨0, 0⟩) []] = some w ∧
      Drained scopeGroup moveStreams 0 moveHistory w.store ∧
      (w.store.tables 0).get? 5 = none ∧ unionRow scopeGroup 0 moveHistory 5 ≠ none := by
  refine ⟨_, rfl, ⟨_, rfl, ?_⟩, rfl, Option.some_ne_none _⟩
  intro e he
  rw [mem_shapesOn] at he
  rcases he.1 with _ | ⟨_, _ | ⟨_, ⟨⟩⟩⟩
  · exact ⟨_, 0, rfl, rfl, Nat.zero_le _, [], isSnapshot_nil, rfl⟩
  · exact ⟨_, 0, rfl, rfl, Nat.zero_le _, [], isSnapshot_nil, rfl⟩

def enterStreams (url : ℕ) : ShapeStream ℕ ℕ :=
  .numbered (if url = 0 then [] else [⟨5, pairRow 5 0, .upsert⟩])

/-- The row 5 enters the scope of shape 1 and stays there; nothing is taken away. -/
theorem coTenants_converge_enter :
    ∃ w, run (step scopeGroup enterStreams) World.initial
        [.subscribe id, .deliver 1 0 1 true (some ⟨0, 0⟩) [],
          .deliver 0 0 0 true (some ⟨0, 0⟩) []] = some w ∧
      ∀ key, (w.store.tables 0).get? key =
        unionRow scopeGroup 0 [⟨5, some (pairRow 5 0)⟩] key := by
  have hstream : ∀ e ∈ scopeGroup.shapesOn 0,
      IsScopeStream (scopeOf scopeGroup e.2) [⟨5, some (pairRow 5 0)⟩] 0 1
        (enterStreams e.1).changes := by
    intro e he
    rw [mem_shapesOn] at he
    rcases he.1 with _ | ⟨_, _ | ⟨_, ⟨⟩⟩⟩
    · exact ⟨Nat.zero_le _, [], isSnapshot_nil, rfl⟩
    · exact ⟨Nat.zero_le _, [], isSnapshot_nil, rfl⟩
  refine ⟨_, rfl, coTenants_converge scopeGroup enterStreams 0 [0, 1] [⟨5, some (pairRow 5 0)⟩] ?_
    (by decide) (List.Subset.refl _) [.subscribe id, .deliver 1 0 1 true (some ⟨0, 0⟩) [],
      .deliver 0 0 0 true (some ⟨0, 0⟩) []] ?_ _ rfl ⟨_, rfl, ?_⟩⟩
  · intro write hwrite value hvalue
    obtain rfl := List.mem_singleton.1 hwrite
    obtain rfl := Option.some.inj hvalue
    exact List.Perm.refl _
  · refine ⟨⟨fun e he => ⟨0, 1, hstream e he⟩, trivial⟩, fun w hw => ?_⟩
    obtain rfl := Option.some.inj hw
    refine ⟨⟨trivial, fun engine committing he hc => ?_⟩, fun w hw => ?_⟩
    · -- shape 0 has not reported yet, so this delivery does not commit
      obtain rfl := Option.some.inj he
      cases hc
    · obtain rfl := Option.some.inj hw
      refine ⟨⟨trivial, fun engine committing he hc => ?_⟩, fun _ _ => trivial⟩
      obtain rfl := Option.some.inj he
      obtain rfl := Option.some.inj hc
      exact ⟨fun key hdeletes => absurd rfl hdeletes.1, fun key hdeletes => absurd rfl hdeletes.1,
        trivial⟩
  · intro e he
    have hstreams := hstream e he
    rw [mem_shapesOn] at he
    rcases he.1 with _ | ⟨_, _ | ⟨_, ⟨⟩⟩⟩
    · exact ⟨_, 0, rfl, rfl, hstreams⟩
    · exact ⟨_, 0, rfl, rfl, hstreams⟩

end Circuits
