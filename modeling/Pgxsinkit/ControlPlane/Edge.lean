/-
The read gate, and how far behind a revocation it can be.

`verifyStreamToken`, `findGrant` of packages/server/src/circuits/stream-token.ts and
`authorizeStreamRead` of edge.ts.  A history interleaves requests to the control plane with reads at
the gate; the runtime params, and with them what the private predicates make of a caller's claims,
are those of the moment.  A signature verifies for the tokens that were signed and for no others.

Every token that is signed names one request, `Backed`: the claims its subject presented there
compile to each private stream it grants, and each shared stream it grants is the compiled scope.
-/
import Pgxsinkit.ControlPlane.Stranded

namespace ControlPlane

/-! ### The gate -/

/-- What the parts of a presented token and its HMAC come to. -/
abbrev Signature := Except String StreamTokenClaims

/-- What the private predicate of each shape makes of claims, under the params of the moment. -/
abbrev PrivateFilters := String → Option JwtClaims → PredicateOutcome

/-- The deployment while its private predicates are `filters`. -/
def SubscribeOptions.under (options : SubscribeOptions) (filters : PrivateFilters) :
    SubscribeOptions :=
  { options with
    shape := fun shapeKey => (options.shape shapeKey).map fun shape =>
      { shape with privatePredicate := filters shapeKey } }

inductive Event where
  | request (filters : PrivateFilters) (asked : Request)
  | read (entitlements : Option EntitlementSet) (token : Option Signature) (path : String) (now : ℕ)

/-- The tokens signed by the end of the event. -/
def Event.issue (options : SubscribeOptions) (issued : List StreamTokenClaims) :
    Event → List StreamTokenClaims
  | request filters asked => (serve (options.under filters) issued asked).token.toList ++ issued
  | read .. => issued

/-- The create that one scope of a requested shape sends, with its reply. -/
def scopeJoin (options : SubscribeOptions) (claims : Option JwtClaims) (subject shapeKey : String)
    (env : SubscribeEnv) (i : ℕ) (entry : Option Scope × ℕ) :
    Option (CreateShapeRequest × EngineReply) :=
  let (scope, j) := entry
  match compileGrant options claims shapeKey scope with
  | .create tier request =>
    if tier = .sharedTier ∧ (env.check i j).permits subject shapeKey (scope.getD []) = false then none
    else some (request, env.create i j)
  | _ => none

/-- The creates under new claims that a request sends unless it fails before. -/
def Request.joins (options : SubscribeOptions) (subject : String) :
    Request → List (CreateShapeRequest × EngineReply)
  | .subscribe claims shapeKeys _ env => shapeKeys.zipIdx.flatMap fun (shapeKey, i) =>
    match expandToScopes options (env.expansion i) subject shapeKey with
    | .scopes scopes => scopes.zipIdx.filterMap (scopeJoin options claims subject shapeKey env i)
    | _ => []
  | .refresh .. => []

variable {options : SubscribeOptions} {filters : PrivateFilters} {claims : Option JwtClaims}
  {subject : String} {served : String → CreateShapeRequest}

end ControlPlane
