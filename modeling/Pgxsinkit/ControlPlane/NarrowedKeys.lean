/-
Narrowed local keys.

A local key that drops columns of the server key keeps rows apart when the shapes of a caller fix what it
drops.  `compileShapeRequest` asks for a test of every dropped column at the top level of the predicate; a test
fixes the column when it is an equality, and only within one shape.  `Allows` is what the tests of a shape leave
of a column, and the rows are kept apart when they leave one cell, the same for all shapes.
-/
import Pgxsinkit.ControlPlane.CompileShape

namespace ControlPlane.Narrowing

variable {Params : Type}

/-! ### Server tables -/

/-- What the columns of a table can hold: never NULL in its key. -/
structure ServerTable (primaryKey : List String) where
  cells : String → Set PredicateValue
  notNull : ∀ col ∈ primaryKey, .null ∉ cells col

/-- A content of the table. -/
structure Content {primaryKey : List String} (table : ServerTable primaryKey) where
  rows : List Row
  typed : ∀ row ∈ rows, ∀ col, row col ∈ table.cells col
  keyed : ∀ row ∈ rows, ∀ row' ∈ rows, (∀ col ∈ primaryKey, row col = row' col) → row = row'

/-- The row is in one of the shapes. -/
def InShapes (engine : Engine) (shapes : List CreateShapeRequest) (row : Row) : Prop :=
  ∃ shape ∈ shapes, Satisfies engine row shape.where_

/-- No two rows in the shapes have one local key. -/
def KeepsApart (engine : Engine) (entry : SyncTableEntry Params) (table : ServerTable entry.primaryKey)
    (shapes : List CreateShapeRequest) : Prop :=
  ∀ content : Content table, ∀ row ∈ content.rows, ∀ row' ∈ content.rows,
    InShapes engine shapes row → InShapes engine shapes row' →
      (∀ col ∈ entry.localKey, row col = row' col) → row = row'

/-! ### Tests -/

/-- The conjuncts that fix a column, or ask whether it is NULL. -/
def IsTest : Predicate → Prop
  | .leaf _ .eq _ => True
  | .isNull .. => True
  | _ => False

/-- A cell of a column against a conjunct, where that is a test of the column. -/
def Meets (col : String) (cell : PredicateValue) : Predicate → Prop
  | .leaf tested .eq value => tested = col → cell = value ∧ cell ≠ .null
  | .isNull tested isNull => tested = col → decide (cell = .null) = isNull
  | _ => True

def topLevel (where_ : Option Predicate) : List Predicate := (where_.map conjuncts).getD []

/-- The cells that the tests of a shape leave of a column. -/
def Allows {primaryKey : List String} (table : ServerTable primaryKey) (where_ : Option Predicate) (col : String) :
    Set PredicateValue :=
  {cell | cell ∈ table.cells col ∧ ∀ node ∈ topLevel where_, Meets col cell node}

/-- The tests of two shapes leave cells for two rows of one local key. -/
structure Compatible (entry : SyncTableEntry Params) (table : ServerTable entry.primaryKey)
    (where_ where_' : Option Predicate) : Prop where
  left : ∀ col, (Allows table where_ col).Nonempty
  right : ∀ col, (Allows table where_' col).Nonempty
  shared : ∀ col ∈ entry.localKey, (Allows table where_ col ∩ Allows table where_' col).Nonempty

/-- Of every dropped column the tests of the shapes leave one cell, where they leave cells for two rows of one
local key. -/
def OneCell (entry : SyncTableEntry Params) (table : ServerTable entry.primaryKey)
    (shapes : List CreateShapeRequest) : Prop :=
  ∀ shape ∈ shapes, ∀ shape' ∈ shapes, Compatible entry table shape.where_ shape'.where_ →
    ∀ col ∈ entry.dropped, ∀ cell ∈ Allows table shape.where_ col, ∀ cell' ∈ Allows table shape'.where_ col,
      cell = cell'

variable {engine : Engine} {row : Row} {where_ : Option Predicate} {node : Predicate}

theorem satisfies_iff : Satisfies engine row where_ ↔ ∀ node ∈ topLevel where_, truth engine row node = some true := by
  cases where_ with
  | none => simp [Satisfies, topLevel]
  | some node => simp [Satisfies, topLevel, truth_iff_conjuncts engine row node]

theorem meets_of_truth (h : truth engine row node = some true) (col : String) : Meets col (row col) node := by
  unfold Meets
  split
  · rintro rfl
    exact (engine.compare_eq _ _).mp h
  · rintro rfl
    exact beq_iff_eq.mp (Option.some.inj h)
  · exact trivial

theorem truth_of_meets (htest : IsTest node) (h : ∀ col, Meets col (row col) node) :
    truth engine row node = some true := by
  unfold IsTest at htest
  split at htest
  · exact (engine.compare_eq _ _).mpr (h _ rfl)
  · exact congrArg some (beq_iff_eq.mpr (h _ rfl))
  · exact absurd htest id

theorem allows_of_satisfies {primaryKey : List String} {table : ServerTable primaryKey} {col : String}
    (hcell : row col ∈ table.cells col) (h : Satisfies engine row where_) : row col ∈ Allows table where_ col :=
  ⟨hcell, fun node hnode => meets_of_truth (satisfies_iff.mp h node hnode) col⟩

theorem mem_dropped {entry : SyncTableEntry Params} {col : String} :
    col ∈ entry.dropped ↔ col ∈ entry.primaryKey ∧ col ∉ entry.localKey := by
  rw [SyncTableEntry.dropped, List.mem_filter, decide_eq_true_eq]

section

variable {entry : SyncTableEntry Params} {table : ServerTable entry.primaryKey} {shapes : List CreateShapeRequest}

/-- Two rows of one local key agree on what it drops. -/
theorem OneCell.keepsApart (h : OneCell entry table shapes) : KeepsApart engine entry table shapes := by
  rintro content row hrow row' hrow' ⟨shape, hshape, hsat⟩ ⟨shape', hshape', hsat'⟩ hlocal
  have hallows : ∀ col, row col ∈ Allows table shape.where_ col := fun col =>
    allows_of_satisfies (content.typed row hrow col) hsat
  have hallows' : ∀ col, row' col ∈ Allows table shape'.where_ col := fun col =>
    allows_of_satisfies (content.typed row' hrow' col) hsat'
  have hcompatible : Compatible entry table shape.where_ shape'.where_ :=
    ⟨fun col => ⟨_, hallows col⟩, fun col => ⟨_, hallows' col⟩,
      fun col hcol => ⟨row col, hallows col, hlocal col hcol ▸ hallows' col⟩⟩
  refine content.keyed row hrow row' hrow' fun col hcol => ?_
  by_cases hkept : col ∈ entry.localKey
  · exact hlocal col hkept
  · exact h shape hshape shape' hshape' hcompatible col (mem_dropped.mpr ⟨hcol, hkept⟩) _ (hallows col) _
      (hallows' col)

/-- A row whose cells are allowed satisfies a predicate of tests. -/
theorem satisfies_of_allows (htests : ∀ node ∈ topLevel where_, IsTest node)
    (h : ∀ col, row col ∈ Allows table where_ col) : Satisfies engine row where_ :=
  satisfies_iff.mpr fun node hnode => truth_of_meets (htests node hnode) fun col => (h col).2 node hnode

/-- Where the predicates are tests alone, two cells for a dropped column make two rows of one local key. -/
theorem OneCell.of_keepsApart (htests : ∀ shape ∈ shapes, ∀ node ∈ topLevel shape.where_, IsTest node)
    (h : KeepsApart engine entry table shapes) : OneCell entry table shapes := by
  intro shape hshape shape' hshape' hcompatible col hcol cell hcell cell' hcell'
  by_contra hne
  obtain ⟨hkey, hnotLocal⟩ := mem_dropped.mp hcol
  choose f hf using hcompatible.left
  choose f' hf' using hcompatible.right
  choose g hg hg' using hcompatible.shared
  -- the two rows differ in the dropped column, and have the shared cells in the local key
  let row : Row := fun c => if hc : c ∈ entry.localKey then g c hc else if c = col then cell else f c
  let row' : Row := fun c => if hc : c ∈ entry.localKey then g c hc else if c = col then cell' else f' c
  have hrow : ∀ c, row c ∈ Allows table shape.where_ c := by
    intro c
    by_cases hc : c ∈ entry.localKey
    · simp only [row, dif_pos hc, hg c hc]
    · by_cases hcc : c = col
      · subst hcc
        simp only [row, dif_neg hc, if_true, hcell]
      · simp only [row, dif_neg hc, if_neg hcc, hf c]
  have hrow' : ∀ c, row' c ∈ Allows table shape'.where_ c := by
    intro c
    by_cases hc : c ∈ entry.localKey
    · simp only [row', dif_pos hc, hg' c hc]
    · by_cases hcc : c = col
      · subst hcc
        simp only [row', dif_neg hc, if_true, hcell']
      · simp only [row', dif_neg hc, if_neg hcc, hf' c]
  have hcol₁ : row col = cell := by simp only [row, dif_neg hnotLocal, if_true]
  have hcol₂ : row' col = cell' := by simp only [row', dif_neg hnotLocal, if_true]
  have hdiffer : row col ≠ row' col := by rwa [hcol₁, hcol₂]
  have hkeyed : ∀ r ∈ [row, row'], ∀ r' ∈ [row, row'], (∀ c ∈ entry.primaryKey, r c = r' c) → r = r' := by
    intro r hr r' hr' hsame
    rw [List.mem_pair] at hr hr'
    rcases hr with rfl | rfl <;> rcases hr' with rfl | rfl
    · rfl
    · exact absurd (hsame col hkey) hdiffer
    · exact absurd (hsame col hkey).symm hdiffer
    · rfl
  have htyped : ∀ r ∈ [row, row'], ∀ c, r c ∈ table.cells c := by
    intro r hr c
    rw [List.mem_pair] at hr
    rcases hr with rfl | rfl
    · exact (hrow c).1
    · exact (hrow' c).1
  have hlocal : ∀ c ∈ entry.localKey, row c = row' c := fun c hc => by simp only [row, row', dif_pos hc]
  have hsame := h ⟨[row, row'], htyped, hkeyed⟩ row List.mem_cons_self row' (List.mem_cons_of_mem _ List.mem_cons_self)
    ⟨shape, hshape, satisfies_of_allows (htests shape hshape) hrow⟩
    ⟨shape', hshape', satisfies_of_allows (htests shape' hshape') hrow'⟩ hlocal
  exact hdiffer (congrFun hsame col)

end

/-! ### What is created -/

/-- The conjunct is an equality on the column, or asks whether it is NULL. -/
def TestOf (col : String) : Predicate → Prop
  | .leaf tested .eq _ => tested = col
  | .isNull tested _ => tested = col
  | _ => False

mutual

theorem test_of_pinned {col : String} : ∀ node : Predicate, col ∈ pinnedColumns node →
    ∃ c ∈ conjuncts node, TestOf col c
  | .and nodes, h => test_of_pinnedAll nodes h
  | .isNull _ _, h => ⟨_, List.mem_singleton_self _, (List.mem_singleton.mp h).symm⟩
  | .leaf _ .eq _, h => ⟨_, List.mem_singleton_self _, (List.mem_singleton.mp h).symm⟩

theorem test_of_pinnedAll {col : String} : ∀ nodes : List Predicate, col ∈ pinnedColumnsAll nodes →
    ∃ c ∈ conjunctsAll nodes, TestOf col c
  | node :: nodes, h => by
    rw [pinnedColumnsAll, List.mem_append] at h
    rw [conjunctsAll]
    rcases h with h | h
    · obtain ⟨c, hc, htest⟩ := test_of_pinned node h
      exact ⟨c, List.mem_append_left _ hc, htest⟩
    · obtain ⟨c, hc, htest⟩ := test_of_pinnedAll nodes h
      exact ⟨c, List.mem_append_right _ hc, htest⟩

end

variable {registry : List (SyncTableEntry Params)} {entitlements : Option EntitlementSet} {claims : Option JwtClaims}
  {params : Option Params} {shapeKey : String} {entry : SyncTableEntry Params} {shape : CreateShapeRequest}

theorem compiled_pinned {request : ShapeRequest Params} {tier : ShapeTier}
    (h : compileShapeRequest registry request = .create tier shape)
    (hentry : resolveEntryByShapeKey registry request.shapeKey = some entry) :
    ∃ shapeKey, assertLocalPrimaryKeyIsPinned entry shapeKey shape.where_ = none := by
  rw [compileShapeRequest, hentry] at h
  dsimp only at h
  split at h
  · cases h
  split at h
  · cases h
  split at h
  · cases h
  · cases h
  split at h
  · cases h
  · rename_i hnone
    obtain ⟨-, rfl⟩ := CompiledShapeRequest.create.inj h
    exact ⟨_, hnone⟩

theorem exists_compiled (h : shape ∈ createdShapes registry entitlements claims params shapeKey) :
    ∃ scope tier, compileShapeRequest registry ⟨shapeKey, claims, scope, params⟩ = .create tier shape := by
  rw [createdShapes] at h
  split at h
  · cases h
  split at h
  · obtain ⟨scope, -, h⟩ := List.mem_filterMap.mp h
    split at h
    · rename_i tier request hcompiled
      exact ⟨scope, tier, Option.some.inj h ▸ hcompiled⟩
    · cases h
  · cases h

/-- Every dropped column is tested at the top level of a shape that is created. -/
theorem created_tested (h : shape ∈ createdShapes registry entitlements claims params shapeKey)
    (hentry : resolveEntryByShapeKey registry shapeKey = some entry) {localKey : List String}
    (hkey : entry.localPrimaryKey = some localKey) (hne : localKey ≠ []) {col : String} (hcol : col ∈ entry.dropped) :
    ∃ node ∈ topLevel shape.where_, TestOf col node := by
  obtain ⟨scope, tier, hcompiled⟩ := exists_compiled h
  obtain ⟨_, hpinned⟩ := compiled_pinned hcompiled hentry
  obtain ⟨key, keys, rfl⟩ := List.exists_cons_of_ne_nil hne
  rw [assertLocalPrimaryKeyIsPinned, hkey] at hpinned
  dsimp only at hpinned
  split at hpinned
  · rename_i hlength
    have hall := List.filter_eq_nil_iff.mp (List.length_eq_zero_iff.mp hlength)
    have hdropped : col ∈ entry.primaryKey.filter (· ∉ key :: keys) := by
      rw [SyncTableEntry.dropped, SyncTableEntry.localKey, hkey] at hcol
      exact hcol
    have hmem : col ∈ (shape.where_.map pinnedColumns).getD [] := by
      have hnot := hall col hdropped
      rwa [decide_eq_true_eq, not_not] at hnot
    cases hwhere : shape.where_ with
    | none =>
      rw [hwhere] at hmem
      cases hmem
    | some node =>
      rw [hwhere] at hmem
      exact test_of_pinned node hmem
  · cases hpinned

/-- The check is enough where no dropped column is tested for `IS NOT NULL`, and the equalities of the created
shapes agree. -/
theorem OneCell.of_equalities (hentry : resolveEntryByShapeKey registry shapeKey = some entry)
    {localKey : List String} (hkey : entry.localPrimaryKey = some localKey) (hne : localKey ≠ [])
    (table : ServerTable entry.primaryKey)
    (hnotNull : ∀ shape ∈ createdShapes registry entitlements claims params shapeKey, ∀ col ∈ entry.dropped,
      .isNull col false ∉ topLevel shape.where_)
    (hequal : ∀ shape ∈ createdShapes registry entitlements claims params shapeKey,
      ∀ shape' ∈ createdShapes registry entitlements claims params shapeKey, ∀ col ∈ entry.dropped, ∀ value value',
      .leaf col .eq value ∈ topLevel shape.where_ → .leaf col .eq value' ∈ topLevel shape'.where_ → value = value') :
    OneCell entry table (createdShapes registry entitlements claims params shapeKey) := by
  -- a test that is met is an equality: the key has no NULL
  have hfixed : ∀ shape ∈ createdShapes registry entitlements claims params shapeKey, ∀ col ∈ entry.dropped,
      ∀ cell ∈ Allows table shape.where_ col, .leaf col .eq cell ∈ topLevel shape.where_ := by
    intro shape hshape col hcol cell hcell
    obtain ⟨node, hnode, htest⟩ := created_tested hshape hentry hkey hne hcol
    have hmeets := hcell.2 node hnode
    unfold TestOf at htest
    split at htest
    · subst htest
      obtain ⟨rfl, -⟩ := hmeets rfl
      exact hnode
    · subst htest
      rename_i isNull
      cases isNull with
      | false => exact absurd hnode (hnotNull shape hshape _ hcol)
      | true =>
        have hnull : cell = .null := of_decide_eq_true (hmeets rfl)
        exact absurd (hnull ▸ hcell.1) (table.notNull _ (mem_dropped.mp hcol).1)
    · exact absurd htest id
  intro shape hshape shape' hshape' _ col hcol cell hcell cell' hcell'
  exact hequal shape hshape shape' hshape' col hcol cell cell' (hfixed shape hshape col hcol cell hcell)
    (hfixed shape' hshape' col hcol cell' hcell')

/-- The rows in the created shapes of an entry have different local keys when their tests leave one cell of every
dropped column; and where the predicates are tests alone, only then.  That the columns are tested is checked. -/
theorem narrowed_keys (engine : Engine) (registry : List (SyncTableEntry Params))
    (entitlements : Option EntitlementSet) (claims : Option JwtClaims) (params : Option Params) (shapeKey : String)
    (hentry : resolveEntryByShapeKey registry shapeKey = some entry) (table : ServerTable entry.primaryKey) :
    let shapes := createdShapes registry entitlements claims params shapeKey
    (∀ localKey, entry.localPrimaryKey = some localKey → localKey ≠ [] →
      ∀ shape ∈ shapes, ∀ col ∈ entry.dropped, ∃ node ∈ topLevel shape.where_, TestOf col node) ∧
    (OneCell entry table shapes → KeepsApart engine entry table shapes) ∧
      ((∀ shape ∈ shapes, ∀ node ∈ topLevel shape.where_, IsTest node) →
        (KeepsApart engine entry table shapes ↔ OneCell entry table shapes)) :=
  ⟨fun _ hkey hne _ hshape _ hcol => created_tested hshape hentry hkey hne hcol, OneCell.keepsApart,
    fun htests => ⟨OneCell.of_keepsApart htests, OneCell.keepsApart⟩⟩

/-! ### Cards -/

/-- An engine that compares for equality alone. -/
def equalityEngine : Engine where
  compare op cell value :=
    if cell = .null ∨ value = .null then none
    else
      match op with
      | .eq => some (decide (cell = value))
      | .neq => some (decide (cell ≠ value))
      | _ => none
  member _ _ _ _ := none
  compare_eq cell value := by
    by_cases hnull : cell = .null ∨ value = .null
    · rw [if_pos hnull]
      refine iff_of_false (fun h => Option.some_ne_none _ h.symm) fun h => ?_
      rcases hnull with hcell | hvalue
      · exact h.2 hcell
      · exact h.2 (h.1.trans hvalue)
    · rw [if_neg hnull]
      show some (decide (cell = value)) = some true ↔ _
      rw [Option.some.injEq, decide_eq_true_eq]
      exact ⟨fun h => ⟨h, fun hcell => hnull (.inl hcell)⟩, And.left⟩

/-- Cards by owner, of which the client keeps the card. -/
def cards (customPredicate : JwtClaims → Option Unit → FilterResult) : SyncTableEntry Unit where
  shape := some {
    tableName := "card"
    shapeKey := "card"
    physicalTable := none
    rowFilter := some ⟨none, some customPredicate⟩
    scope := none
    where_ := none
    oneTier := fun h => absurd h Bool.false_ne_true }
  primaryKey := ["owner_id", "card_id"]
  localPrimaryKey := some ["card_id"]
  omitColumns := none
  localColumns := ["owner_id", "card_id", "grade"]

/-- Cards by team, a shape for each. -/
def teamCards : SyncTableEntry Unit where
  shape := some {
    tableName := "team_card"
    shapeKey := "team_card"
    physicalTable := none
    rowFilter := none
    scope := some ["team_id"]
    where_ := none
    oneTier := fun _ => rfl }
  primaryKey := ["team_id", "card_id"]
  localPrimaryKey := some ["card_id"]
  omitColumns := none
  localColumns := ["team_id", "card_id", "grade"]

/-- Texts in every column. -/
def textTable (primaryKey : List String) : ServerTable primaryKey where
  cells _ := Set.range PredicateValue.str
  notNull _ _ h := by
    obtain ⟨_, h⟩ := h
    cases h

/-- `p.eq(c.ownerId, claims.sub)` -/
def ownCards (claims : JwtClaims) (_ : Option Unit) : FilterResult :=
  match claims.sub with
  | none => .denyAll
  | some sub => .predicate (some (.leaf "owner_id" .eq (.str sub)))

/-- `p.isNotNull(c.ownerId)` -/
def anyCards (_ : JwtClaims) (_ : Option Unit) : FilterResult := .predicate (some (.isNull "owner_id" false))

def ada : Option JwtClaims := some ⟨some "ada", []⟩

/-- Ada is in the red and in the blue team. -/
def adasTeams : EntitlementSet where
  ready := true
  permits subject _ scope := decide (subject = "ada" ∧ (scope = [.str "red"] ∨ scope = [.str "blue"]))
  scopesFor subject _ := if subject = "ada" then [[.str "red"], [.str "blue"]] else []

theorem created_ownCards : createdShapes [cards ownCards] none ada none "card" =
    [⟨"card", some (.leaf "owner_id" .eq (.str "ada")), none⟩] := rfl

theorem created_anyCards : createdShapes [cards anyCards] none ada none "card" =
    [⟨"card", some (.isNull "owner_id" false), none⟩] := rfl

theorem created_teamCards : createdShapes [teamCards] (some adasTeams) ada none "team_card" =
    [⟨"team_card", some (.leaf "team_id" .eq (.str "red")), none⟩,
      ⟨"team_card", some (.leaf "team_id" .eq (.str "blue")), none⟩] := rfl

/-- Where Ada reads her own cards, each is a row of its own. -/
theorem narrowed_keys_ownCards :
    OneCell (cards ownCards) (textTable _) (createdShapes [cards ownCards] none ada none "card") ∧
      KeepsApart equalityEngine (cards ownCards) (textTable _)
        (createdShapes [cards ownCards] none ada none "card") := by
  have hown : ∀ cell ∈ Allows (textTable (cards ownCards).primaryKey) (some (.leaf "owner_id" .eq (.str "ada")))
      "owner_id", cell = .str "ada" := fun cell hcell => (hcell.2 _ List.mem_cons_self rfl).1
  have hdropped : (cards ownCards).dropped = ["owner_id"] := rfl
  have hone : OneCell (cards ownCards) (textTable _) (createdShapes [cards ownCards] none ada none "card") := by
    rw [created_ownCards]
    intro shape hshape shape' hshape' _ col hcol cell hcell cell' hcell'
    obtain rfl := List.mem_singleton.mp hshape
    obtain rfl := List.mem_singleton.mp hshape'
    obtain rfl := List.mem_singleton.mp (hdropped ▸ hcol)
    rw [hown cell hcell, hown cell' hcell']
  exact ⟨hone, (narrowed_keys equalityEngine [cards ownCards] none ada none "card" rfl (textTable _)).2.1 hone⟩

/-- One card, of the owner or team. -/
def cardOf (owner : String) : Row := fun col => if col = "card_id" then .str "7" else .str owner

/-- The card is held twice. -/
def heldTwice (col : String) (hcol : col ≠ "card_id") : Content (textTable [col, "card_id"]) where
  rows := [cardOf "red", cardOf "blue"]
  typed row hrow c := by
    have hcell : ∀ owner, cardOf owner c ∈ Set.range PredicateValue.str := by
      intro owner
      rw [cardOf]
      split
      · exact ⟨_, rfl⟩
      · exact ⟨_, rfl⟩
    rcases List.mem_pair.mp hrow with rfl | rfl
    · exact hcell _
    · exact hcell _
  keyed row hrow row' hrow' hsame := by
    have howner : ∀ owner, cardOf owner col = .str owner := fun owner => if_neg hcol
    have hkey := hsame col List.mem_cons_self
    rcases List.mem_pair.mp hrow with rfl | rfl <;> rcases List.mem_pair.mp hrow' with rfl | rfl
    · rfl
    · rw [howner, howner] at hkey
      exact absurd (PredicateValue.str.inj hkey) (by decide)
    · rw [howner, howner] at hkey
      exact absurd (PredicateValue.str.inj hkey) (by decide)
    · rfl

theorem cardOf_ne : cardOf "red" ≠ cardOf "blue" := by
  intro h
  have hcell : PredicateValue.str "red" = .str "blue" := congrFun h "owner_id"
  exact absurd (PredicateValue.str.inj hcell) (by decide)

/-- `IS NOT NULL` counts as a pin, and admits the card of every owner; and two teams are two shapes, each of which
pins its own team. -/
theorem narrowed_keys_collapse :
    ¬ KeepsApart equalityEngine (cards anyCards) (textTable _) (createdShapes [cards anyCards] none ada none "card") ∧
      ¬ KeepsApart equalityEngine teamCards (textTable _)
        (createdShapes [teamCards] (some adasTeams) ada none "team_card") := by
  have hlocal : ∀ col ∈ ["card_id"], cardOf "red" col = cardOf "blue" col := by
    intro col hcol
    obtain rfl := List.mem_singleton.mp hcol
    rfl
  rw [created_anyCards, created_teamCards]
  refine ⟨fun h => ?_, fun h => ?_⟩
  · have hany : ∀ owner, InShapes equalityEngine [⟨"card", some (.isNull "owner_id" false), none⟩] (cardOf owner) :=
      fun owner => ⟨_, List.mem_cons_self, fun node hnode => Option.some.inj hnode ▸ rfl⟩
    exact cardOf_ne (h (heldTwice "owner_id" (by decide)) _ List.mem_cons_self _
      (List.mem_cons_of_mem _ List.mem_cons_self) (hany _) (hany _) hlocal)
  · refine cardOf_ne (h (heldTwice "team_id" (by decide)) _ List.mem_cons_self _
      (List.mem_cons_of_mem _ List.mem_cons_self) ⟨_, List.mem_cons_self, ?_⟩
      ⟨_, List.mem_cons_of_mem _ List.mem_cons_self, ?_⟩ hlocal)
    · exact fun node hnode => Option.some.inj hnode ▸ rfl
    · exact fun node hnode => Option.some.inj hnode ▸ rfl

end ControlPlane.Narrowing
