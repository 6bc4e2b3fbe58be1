/-
Compiling a shape request.

`compileShapeRequest` of packages/server/src/circuits/compile.ts, and the requests that one subscribe makes
of it for a shape.  The filter of the private tier is the deployment's own code, and may throw.
-/
import Pgxsinkit.ControlPlane.Predicate

namespace ControlPlane.Narrowing

variable {Params : Type}

/-! ### The registry -/

/-- What `rowFilter.customPredicate` returns: the sentinel by reference, or a predicate, if any. -/
inductive FilterResult where
  | denyAll
  | predicate (predicate : Option Predicate)
  | throws

structure RowFilterSpec (Params : Type) where
  columns : Option (List String)
  customPredicate : Option (JwtClaims → Option Params → FilterResult)

structure ShapeSpec (Params : Type) where
  tableName : String
  shapeKey : String
  physicalTable : Option String
  rowFilter : Option (RowFilterSpec Params)
  scope : Option (List String)
  where_ : Option Predicate
  /-- A shape that declares both is refused at definition. -/
  oneTier : scope.isSome → rowFilter.isNone

/-- An entry of the registry; its keys are lists of column names. -/
structure SyncTableEntry (Params : Type) where
  shape : Option (ShapeSpec Params)
  primaryKey : List String
  localPrimaryKey : Option (List String)
  omitColumns : Option (List String)
  localColumns : List String

/-- `getLocalSyncPrimaryKeyColumns` -/
def SyncTableEntry.localKey (entry : SyncTableEntry Params) : List String :=
  entry.localPrimaryKey.getD entry.primaryKey

/-- The columns of the server key that are not in the local one. -/
def SyncTableEntry.dropped (entry : SyncTableEntry Params) : List String :=
  entry.primaryKey.filter (· ∉ entry.localKey)

def readShapeTier (shape : ShapeSpec Params) : ShapeTier :=
  if shape.scope.isSome then .sharedTier else .privateTier

def resolveEntryByShapeKey (registry : List (SyncTableEntry Params)) (shapeKey : String) :
    Option (SyncTableEntry Params) :=
  registry.find? fun entry => entry.shape.any (·.shapeKey == shapeKey)

/-! ### The request -/

structure ShapeRequest (Params : Type) where
  shapeKey : String
  claims : Option JwtClaims
  scope : Option Scope
  params : Option Params

structure CreateShapeRequest where
  table : String
  where_ : Option Predicate
  columns : Option (List String)

inductive CompiledShapeRequest where
  | create (tier : ShapeTier) (request : CreateShapeRequest)
  | deny (reason : String)
  | throws

/-- The table, or why it cannot be read. -/
def resolveShapeTarget (shape : ShapeSpec Params) : Except String String :=
  let target := shape.physicalTable.getD shape.tableName
  if '.' ∉ target.toList then .ok target
  else if target.toList.takeWhile (· ≠ '.') = "public".toList then .ok (String.ofList (target.toList.drop 7))
  else .error (s!"shape \"{shape.shapeKey}\" reads \"{target}\", but the engine introspects the public schema " ++
    "only and names tables bare — a non-public target has no shape it can be created under.")

def emittedColumns (entry : SyncTableEntry Params) : Option (List String) :=
  match (entry.shape.bind (·.rowFilter)).bind (·.columns) with
  | some (column :: columns) => some (column :: columns)
  | _ => entry.omitColumns.map fun _ => entry.localColumns

/-- The test of one scope column. -/
def scopeTest (col : String) (value : PredicateValue) : Predicate :=
  if value = .null then .isNull col true else .leaf col .eq value

def scopePredicate (shape : ShapeSpec Params) (values : Option Scope) : Except String (Option Predicate) :=
  let columns := shape.scope.getD []
  match values with
  | none => .error s!"shape \"{shape.shapeKey}\" is shared-tier and requires {columns.length} scope value(s)"
  | some values =>
    if values.length ≠ columns.length then
      .error (s!"shape \"{shape.shapeKey}\" takes {columns.length} scope value(s) " ++
        "(" ++ ", ".intercalate columns ++ s!") but got {values.length}")
    else .ok (conjoinPredicates (List.zipWith (fun col value => some (scopeTest col value)) columns values))

/-- The filter's predicate, a refusal, or nothing where it throws. -/
def privatePredicate (shape : ShapeSpec Params) (claims : Option JwtClaims) (params : Option Params) :
    Option (Except String (Option Predicate)) :=
  match shape.rowFilter.bind (·.customPredicate) with
  | none => some (.ok none)
  | some filter =>
    match filter (claims.getD ⟨none, []⟩) params with
    | .denyAll => some (.error s!"shape \"{shape.shapeKey}\" denies this caller")
    | .predicate predicate => some (.ok predicate)
    | .throws => none

mutual

/-- The columns that `pinnedColumns` collects. -/
def pinnedColumns : Predicate → List String
  | .and nodes => pinnedColumnsAll nodes
  | .isNull col _ => [col]
  | .leaf col .eq _ => [col]
  | _ => []

def pinnedColumnsAll : List Predicate → List String
  | [] => []
  | node :: nodes => pinnedColumns node ++ pinnedColumnsAll nodes

end

/-- Why the narrowing of the key is refused, if it is. -/
def assertLocalPrimaryKeyIsPinned (entry : SyncTableEntry Params) (shapeKey : String) (where_ : Option Predicate) :
    Option String :=
  match entry.localPrimaryKey with
  | none => none
  | some [] => none
  | some localKey =>
    let dropped := entry.primaryKey.filter (· ∉ localKey)
    let pinned := (where_.map pinnedColumns).getD []
    let unpinned := dropped.filter (· ∉ pinned)
    let those := if unpinned.length = 1 then "that column" else "those columns"
    if unpinned.length = 0 then none
    else some (s!"shape \"{shapeKey}\" declares clientProjection.localPrimaryKey (" ++ ", ".intercalate localKey ++
      "), dropping " ++ ", ".intercalate unpinned ++ " from the server primary key (" ++
      ", ".intercalate entry.primaryKey ++ s!") — but this caller's predicate does not pin {those} to a single value, " ++
      "so two server rows could collapse onto one local key. Pin it with a top-level equality in the shape's " ++
      "rowFilter (or its scope), or widen localPrimaryKey to include it.")

def compileShapeRequest (registry : List (SyncTableEntry Params)) (request : ShapeRequest Params) :
    CompiledShapeRequest :=
  match resolveEntryByShapeKey registry request.shapeKey with
  | none => .deny s!"no shape declares shapeKey \"{request.shapeKey}\""
  | some entry =>
    match entry.shape with
    | none => .deny s!"no shape declares shapeKey \"{request.shapeKey}\""
    | some shape =>
      match resolveShapeTarget shape with
      | .error refusal => .deny refusal
      | .ok table =>
        let subject :=
          match readShapeTier shape with
          | .sharedTier => some (scopePredicate shape request.scope)
          | .privateTier => privatePredicate shape request.claims request.params
        match subject with
        | none => .throws
        | some (.error refusal) => .deny refusal
        | some (.ok predicate) =>
          let where_ := conjoinPredicates [predicate, shape.where_]
          match assertLocalPrimaryKeyIsPinned entry shape.shapeKey where_ with
          | some narrowing => .deny narrowing
          | none => .create (readShapeTier shape) ⟨table, where_, emittedColumns entry⟩

/-! ### One subscribe -/

def expandToScopes (registry : List (SyncTableEntry Params)) (entitlements : Option EntitlementSet)
    (subject shapeKey : String) : Expansion :=
  match (resolveEntryByShapeKey registry shapeKey).bind (·.shape) with
  | none => .scopes [none]
  | some shape =>
    match readShapeTier shape with
    | .privateTier => .scopes [none]
    | .sharedTier =>
      match entitlements with
      | none => .refusal (.noEntitlementSet "shape")
      | some entitlements =>
        if entitlements.ready = false then .unavailable
        else
          match entitlements.scopesFor subject shapeKey with
          | [] => .refusal (.noEntitledScopes entitlements)
          | held => .scopes (held.map some)

/-- The shapes that one subscribe of a caller creates for a shape key, as far as they compile. -/
def createdShapes (registry : List (SyncTableEntry Params)) (entitlements : Option EntitlementSet)
    (claims : Option JwtClaims) (params : Option Params) (shapeKey : String) : List CreateShapeRequest :=
  match claims.bind (·.sub) with
  | none => []
  | some subject =>
    match expandToScopes registry entitlements subject shapeKey with
    | .scopes scopes => scopes.filterMap fun scope =>
      match compileShapeRequest registry ⟨shapeKey, claims, scope, params⟩ with
      | .create _ request => some request
      | _ => none
    | _ => []

/-! ### The routes -/

/-- A compiled request as the routes see it, its predicate as text. -/
def CreateShapeRequest.rendered (render : Predicate → String) (request : CreateShapeRequest) :
    ControlPlane.CreateShapeRequest :=
  ⟨request.table, request.where_.map render, request.columns⟩

def CompiledShapeRequest.rendered (render : Predicate → String) : CompiledShapeRequest →
    ControlPlane.CompiledShapeRequest
  | create tier request => .create tier (request.rendered render)
  | deny reason => .deny reason
  | throws => .throws

section

variable (registry : List (SyncTableEntry Params)) (params : Option Params) (render : Predicate → String)

/-- What a tier's predicate comes to, once the rest of the shape is added and the key is checked. -/
def outcome (entry : SyncTableEntry Params) (shape : ShapeSpec Params) :
    Option (Except String (Option Predicate)) → PredicateOutcome
  | none => .throws
  | some (.error refusal) => .refusal refusal
  | some (.ok predicate) =>
    let where_ := conjoinPredicates [predicate, shape.where_]
    match assertLocalPrimaryKeyIsPinned entry shape.shapeKey where_ with
    | some narrowing => .refusal narrowing
    | none =>
      let table := (resolveShapeTarget shape).toOption.getD ""
      .create ((CreateShapeRequest.mk table where_ (emittedColumns entry)).rendered render)

/-- The shape that a key selects, for the routes. -/
def shapeOf (shapeKey : String) : Option ControlPlane.ShapeSpec :=
  (resolveEntryByShapeKey registry shapeKey).bind fun entry => entry.shape.map fun shape =>
    { tier := readShapeTier shape
      targetRefusal :=
        match resolveShapeTarget shape with
        | .ok _ => none
        | .error refusal => some refusal
      scopeColumns := shape.scope.getD []
      scopePredicate := fun scope => outcome render entry shape (some (scopePredicate shape (some scope)))
      privatePredicate := fun claims => outcome render entry shape (privatePredicate shape claims params) }

theorem shapeKey_of_resolve {shapeKey : String} {entry : SyncTableEntry Params} {shape : ShapeSpec Params}
    (h : resolveEntryByShapeKey registry shapeKey = some entry) (hshape : entry.shape = some shape) :
    shape.shapeKey = shapeKey := by
  have hfound := List.find?_some h
  rw [hshape] at hfound
  exact beq_iff_eq.mp hfound

/-- The routes compile what `compileShapeRequest` does. -/
theorem compileGrant_eq (options : SubscribeOptions) (hshape : options.shape = shapeOf registry params render)
    (claims : Option JwtClaims) (shapeKey : String) (scope : Option Scope) :
    compileGrant options claims shapeKey scope =
      (compileShapeRequest registry ⟨shapeKey, claims, scope, params⟩).rendered render := by
  rw [compileGrant, compileShapeRequest, hshape, shapeOf]
  cases hentry : resolveEntryByShapeKey registry shapeKey with
  | none => rfl
  | some entry =>
    cases hspec : entry.shape with
    | none =>
      dsimp only [Option.bind_some]
      rw [hspec]
      rfl
    | some shape =>
      have hkey := shapeKey_of_resolve registry hentry hspec
      dsimp only [Option.bind_some]
      rw [hspec]
      dsimp only [Option.map_some]
      cases htarget : resolveShapeTarget shape with
      | error refusal => rfl
      | ok table =>
        have houtcome : ∀ tier subject, (outcome render entry shape subject).compiled tier =
            CompiledShapeRequest.rendered render
              (match subject with
              | none => .throws
              | some (.error refusal) => .deny refusal
              | some (.ok predicate) =>
                match assertLocalPrimaryKeyIsPinned entry shape.shapeKey (conjoinPredicates [predicate, shape.where_]) with
                | some narrowing => .deny narrowing
                | none => .create tier ⟨table, conjoinPredicates [predicate, shape.where_], emittedColumns entry⟩) := by
          intro tier subject
          rw [outcome.eq_def]
          split
          · rfl
          · rfl
          · dsimp only
            split
            · rfl
            · rw [htarget]
              rfl
        dsimp only
        cases htier : readShapeTier shape with
        | privateTier => exact houtcome _ _
        | sharedTier =>
          subst hkey
          cases scope with
          | none => rfl
          | some values =>
            show (if _ then _ else _) = _
            by_cases hlength : values.length ≠ (shape.scope.getD []).length
            · have hscope : scopePredicate shape (some values) = .error _ := if_pos hlength
              rw [if_pos hlength, hscope]
              rfl
            · rw [if_neg hlength]
              exact houtcome _ _

theorem expandToScopes_eq (options : SubscribeOptions) (hshape : options.shape = shapeOf registry params render)
    (entitlements : EntitlementSet) (subject shapeKey : String) :
    ControlPlane.expandToScopes options entitlements subject shapeKey =
      expandToScopes registry (if options.hasEntitlements then some entitlements else none) subject shapeKey := by
  rw [ControlPlane.expandToScopes, expandToScopes.eq_def, hshape, shapeOf]
  cases resolveEntryByShapeKey registry shapeKey with
  | none => rfl
  | some entry =>
    dsimp only [Option.bind_some]
    cases hspec : entry.shape with
    | none => rfl
    | some shape =>
      dsimp only [Option.map_some]
      cases htier : readShapeTier shape with
      | privateTier => rfl
      | sharedTier =>
        cases options.hasEntitlements with
        | false => rfl
        | true => rfl

/-- What the subscribe route creates for a scope is one of the created shapes. -/
theorem mem_createdShapes (options : SubscribeOptions) (hshape : options.shape = shapeOf registry params render)
    (entitlements : EntitlementSet) {claims : Option JwtClaims} {subject shapeKey : String} {scope : Option Scope}
    {scopes : List (Option Scope)} {tier : ShapeTier} {request : ControlPlane.CreateShapeRequest}
    (hsubject : claims.bind (·.sub) = some subject)
    (hscopes : ControlPlane.expandToScopes options entitlements subject shapeKey = .scopes scopes)
    (hscope : scope ∈ scopes) (h : compileGrant options claims shapeKey scope = .create tier request) :
    ∃ shape ∈ createdShapes registry (if options.hasEntitlements then some entitlements else none) claims params
      shapeKey, request = shape.rendered render := by
  rw [compileGrant_eq registry params render options hshape] at h
  rw [expandToScopes_eq registry params render options hshape] at hscopes
  rw [createdShapes, hsubject]
  dsimp only
  rw [hscopes]
  cases hcompiled : compileShapeRequest registry ⟨shapeKey, claims, scope, params⟩ with
  | create tier' shape =>
    rw [hcompiled] at h
    obtain ⟨-, rfl⟩ := ControlPlane.CompiledShapeRequest.create.inj h
    exact ⟨shape, List.mem_filterMap.mpr ⟨scope, hscope, by rw [hcompiled]⟩, rfl⟩
  | deny reason =>
    rw [hcompiled] at h
    cases h
  | throws =>
    rw [hcompiled] at h
    cases h

end

end ControlPlane.Narrowing
