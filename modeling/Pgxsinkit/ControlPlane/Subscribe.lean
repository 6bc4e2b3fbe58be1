/-
The control plane's subscribe and re-mint routes.

`subscribeToShapes` and `refreshStreamToken` of packages/server/src/circuits/subscribe.ts, with
what they take from compile.ts.  Everything they ask from outside is an argument: the engine's
reply to each create, and the entitlement set as each question finds it, for it can change or lose
readiness while the request waits.  What a request does at the engine is kept beside its answer: the
claims its creates recorded there, and those it passed to `releaseShape`.
-/
import Mathlib

namespace ControlPlane

inductive PredicateValue where
  | null
  | bool (value : Bool)
  | num (digits : String)
  | str (value : String)
  deriving DecidableEq

abbrev Scope := List PredicateValue

/-- Verified claims: the subject, and the rest of them as the deployment's predicates read it. -/
structure JwtClaims where
  sub : Option String
  rest : List (String × String)
  deriving DecidableEq

/-- The body of `POST /shapes`, its predicate as canonical JSON. -/
structure CreateShapeRequest where
  table : String
  where_ : Option String
  columns : Option (List String)
  deriving DecidableEq

/-! ### Compiling a shape -/

inductive ShapeTier where
  | sharedTier | privateTier
  deriving DecidableEq

/-- What a predicate makes of its inputs; the deployment's closure may throw. -/
inductive PredicateOutcome where
  | create (request : CreateShapeRequest)
  | refusal (reason : String)
  | throws

/-- A declared shape: its tier, why its table has no engine-side spelling (if so), its scope
columns, and the two predicates, of which its tier uses one.  Each includes the check that the
local primary key is pinned. -/
structure ShapeSpec where
  tier : ShapeTier
  targetRefusal : Option String
  scopeColumns : List String
  scopePredicate : Scope → PredicateOutcome
  privatePredicate : Option JwtClaims → PredicateOutcome

/-- The deployment: its shapes by shape key, whether it configured an entitlement set, the token
TTL, and the digest of a request. -/
structure SubscribeOptions where
  shape : String → Option ShapeSpec
  hasEntitlements : Bool
  ttlSeconds : ℕ
  fingerprint : CreateShapeRequest → String

inductive CompiledShapeRequest where
  | create (tier : ShapeTier) (request : CreateShapeRequest)
  | deny (reason : String)
  | throws

def PredicateOutcome.compiled (tier : ShapeTier) : PredicateOutcome → CompiledShapeRequest
  | create request => .create tier request
  | refusal reason => .deny reason
  | throws => .throws

/-- `compileGrant`: `compileShapeRequest` for one scope. -/
def compileGrant (options : SubscribeOptions) (claims : Option JwtClaims) (shapeKey : String)
    (scope : Option Scope) : CompiledShapeRequest :=
  match options.shape shapeKey with
  | none => .deny s!"no shape declares shapeKey \"{shapeKey}\""
  | some shape =>
    match shape.targetRefusal with
    | some reason => .deny reason
    | none =>
      match shape.tier with
      | .privateTier => (shape.privatePredicate claims).compiled .privateTier
      | .sharedTier =>
        let arity := shape.scopeColumns.length
        match scope with
        | none =>
          .deny s!"shape \"{shapeKey}\" is shared-tier and requires {arity} scope value(s)"
        | some values =>
          if values.length ≠ arity then
            .deny (s!"shape \"{shapeKey}\" takes {arity} scope value(s) " ++
              "(" ++ ", ".intercalate shape.scopeColumns ++ s!") but got {values.length}")
          else (shape.scopePredicate values).compiled .sharedTier

/-! ### What the request is answered by -/

/-- The live entitlement set at one moment. -/
structure EntitlementSet where
  ready : Bool
  permits : String → String → Scope → Bool
  scopesFor : String → String → List Scope

structure CircuitsShapeHandle where
  shapeId : String
  streamPath : String
  subscription : String
  leaseSeconds : ℕ

inductive EngineError where
  /-- a status other than 2xx -/
  | status (status : ℕ)
  /-- an answer that was lost or cannot be read -/
  | unusable
  deriving DecidableEq

/-- The engine's reply to a create.  One that fails may have recorded the claim all the same. -/
inductive EngineReply where
  | created (handle : CircuitsShapeHandle)
  | failed (error : EngineError) (recorded : Bool)

/-- The claim ids a create under `claim` recorded at the engine. -/
def EngineReply.recorded (claim : String) : EngineReply → List String
  | created handle => [handle.subscription]
  | failed _ recorded => if recorded then [claim] else []

/-! ### Answers -/

/-- Why a shape or scope is denied or revoked, with the set or the reply that said so. -/
inductive DenialReason where
  | noSubject
  /-- `asked` is the shape or the grant that needs one -/
  | noEntitlementSet (asked : String)
  | noEntitledScopes (asked : EntitlementSet)
  | notCompiled (reason : String)
  | notEntitled (asked : EntitlementSet)
  | noFingerprint
  | predicateChanged
  | heldByAnotherShape (reply : EngineReply)
  | streamChanged (reply : EngineReply)

/-- The text of the answer. -/
def DenialReason.message : DenialReason → String
  | noSubject => "no subject"
  | noEntitlementSet asked =>
    s!"shared-tier {asked}, but this deployment configured no entitlement set"
  | noEntitledScopes _ => "no entitled scopes"
  | notCompiled reason => reason
  | notEntitled _ => "not entitled to this scope"
  | noFingerprint => "private grant carries no fingerprint and cannot be re-authorized"
  | predicateChanged => "shape predicate changed for this subject"
  | heldByAnotherShape _ => "subscription id is held by another shape; re-subscribe"
  | streamChanged _ => "shape stream changed; re-subscribe"

structure DeniedSubscription where
  shapeKey : String
  scope : Option Scope
  reason : DenialReason

structure StreamGrant where
  path : String
  shapeKey : String
  shapeId : String
  claim : String
  scope : Option Scope
  fp : Option String
  deriving DecidableEq

/-- The signed body of a stream token. -/
structure StreamTokenClaims where
  sub : String
  grants : List StreamGrant
  iat : ℕ
  exp : ℕ
  deriving DecidableEq

def mintStreamToken (sub : String) (grants : List StreamGrant) (ttlSeconds now : ℕ) :
    StreamTokenClaims :=
  ⟨sub, grants, now, now + ttlSeconds⟩

inductive RequestError where
  | entitlementsUnavailable
  | engine (error : EngineError)
  | leaseConfig (leaseSeconds ttlSeconds : ℕ)
  | claimRenamed (subscription claim : String)
  | predicateThrew
  deriving DecidableEq

/-- What a request has so far: the grants, the denials, and its claims at the engine. -/
structure Progress where
  grants : List StreamGrant
  denied : List DeniedSubscription
  recorded : List String
  released : List String

def Progress.empty : Progress := ⟨[], [], [], []⟩

namespace Progress

def deny (p : Progress) (shapeKey : String) (scope : Option Scope) (reason : DenialReason) :
    Progress :=
  { p with denied := p.denied ++ [⟨shapeKey, scope, reason⟩] }

def grant (p : Progress) (grant : StreamGrant) : Progress :=
  { p with grants := p.grants ++ [grant] }

def record (p : Progress) (claims : List String) : Progress :=
  { p with recorded := p.recorded ++ claims }

def release (p : Progress) (claim : String) : Progress :=
  { p with released := p.released ++ [claim] }

end Progress

/-- A step of a request: it goes on, or fails with what was done so far. -/
abbrev Step := Except (RequestError × Progress) Progress

/-- `assertLeaseCoversTtl` passes; a lease of 0 never lapses. -/
def leaseCoversTtl (leaseSeconds ttlSeconds : ℕ) : Bool :=
  leaseSeconds = 0 || 2 * ttlSeconds ≤ leaseSeconds

/-! ### Subscribe -/

/-- What one subscribe request meets: the set as its `i`-th shape is expanded and as the `j`-th
scope of that shape is checked, and for each of these the random claim id and the engine's
reply. -/
structure SubscribeEnv where
  expansion : ℕ → EntitlementSet
  check : ℕ → ℕ → EntitlementSet
  claim : ℕ → ℕ → String
  create : ℕ → ℕ → EngineReply
  /-- `crypto.randomUUID` answers no id twice -/
  fresh : ∀ {i j i' j'}, claim i j = claim i' j' → i = i' ∧ j = j'

inductive Expansion where
  | scopes (scopes : List (Option Scope))
  | refusal (reason : DenialReason)
  | unavailable

def expandToScopes (options : SubscribeOptions) (entitlements : EntitlementSet)
    (subject shapeKey : String) : Expansion :=
  match options.shape shapeKey with
  | none => .scopes [none]
  | some shape =>
    match shape.tier with
    | .privateTier => .scopes [none]
    | .sharedTier =>
      if options.hasEntitlements = false then .refusal (.noEntitlementSet "shape")
      else if entitlements.ready = false then .unavailable
      else
        match entitlements.scopesFor subject shapeKey with
        | [] => .refusal (.noEntitledScopes entitlements)
        | held => .scopes (held.map some)

/-- The create of one scope that was authorized, and the checks of its answer. -/
def takeClaim (options : SubscribeOptions) (shapeKey : String) (scope : Option Scope)
    (fp : Option String) (claim : String) (reply : EngineReply) (p : Progress) : Step :=
  let p := p.record (reply.recorded claim)
  match reply with
  | .failed error _ => .error (.engine error, p)
  | .created handle =>
    if handle.subscription ≠ claim then .error (.claimRenamed handle.subscription claim, p)
    else if leaseCoversTtl handle.leaseSeconds options.ttlSeconds = false then
      -- handed back before the error leaves
      .error (.leaseConfig handle.leaseSeconds options.ttlSeconds, p.release claim)
    else .ok (p.grant ⟨handle.streamPath, shapeKey, handle.shapeId, claim, scope, fp⟩)

/-- The body of the inner loop. -/
def subscribeScope (options : SubscribeOptions) (claims : Option JwtClaims)
    (subject shapeKey : String) (env : SubscribeEnv) (i : ℕ) (p : Progress)
    (entry : Option Scope × ℕ) : Step :=
  let (scope, j) := entry
  match compileGrant options claims shapeKey scope with
  | .throws => .error (.predicateThrew, p)
  | .deny reason => .ok (p.deny shapeKey scope (.notCompiled reason))
  | .create tier request =>
    if tier = .sharedTier ∧ (env.check i j).permits subject shapeKey (scope.getD []) = false then
      .ok (p.deny shapeKey scope (.notEntitled (env.check i j)))
    else
      let fp := if tier = .privateTier then some (options.fingerprint request) else none
      takeClaim options shapeKey scope fp (env.claim i j) (env.create i j) p

/-- The body of the outer loop, for a caller that has a subject. -/
def subscribeShape (options : SubscribeOptions) (claims : Option JwtClaims) (subject : String)
    (env : SubscribeEnv) (p : Progress) (entry : String × ℕ) : Step :=
  let (shapeKey, i) := entry
  match expandToScopes options (env.expansion i) subject shapeKey with
  | .refusal reason => .ok (p.deny shapeKey none reason)
  | .unavailable => .error (.entitlementsUnavailable, p)
  | .scopes scopes => scopes.zipIdx.foldlM (subscribeScope options claims subject shapeKey env i) p

/-- How a request ended: with a token (if anything was granted) and the denials, or with an error;
and its claims at the engine. -/
structure Outcome where
  answer : Except RequestError (Option StreamTokenClaims × List DeniedSubscription)
  recorded : List String
  released : List String

def finish (subject : String) (ttlSeconds now : ℕ) : Step → Outcome
  | .error (error, p) => ⟨.error error, p.recorded, p.released⟩
  | .ok p =>
    ⟨.ok (if p.grants.isEmpty then none else some (mintStreamToken subject p.grants ttlSeconds now),
      p.denied), p.recorded, p.released⟩

def subscribeToShapes (options : SubscribeOptions) (claims : Option JwtClaims)
    (shapeKeys : List String) (now : ℕ) (env : SubscribeEnv) : Outcome :=
  match claims.bind (·.sub) with
  | none => ⟨.ok (none, shapeKeys.map fun shapeKey => ⟨shapeKey, none, .noSubject⟩), [], []⟩
  | some subject =>
    finish subject options.ttlSeconds now
      (shapeKeys.zipIdx.foldlM (subscribeShape options claims subject env) Progress.empty)

/-! ### Re-mint -/

/-- What one re-mint meets: for its `i`-th grant the entitlement set, the reply to the renewing
create, and the error of the release that follows another handle, if that fails. -/
structure RefreshEnv where
  entitlements : ℕ → EntitlementSet
  create : ℕ → EngineReply
  releaseError : ℕ → Option EngineError

/-- `renewGrantClaim`, and what the loop does with its outcome. -/
def renewGrantClaim (options : SubscribeOptions) (grant : StreamGrant) (reply : EngineReply)
    (releaseError : Option EngineError) (p : Progress) : Step :=
  let p := p.record (reply.recorded grant.claim)
  match reply with
  | .failed error _ =>
    if error = .status 409 then
      .ok (p.deny grant.shapeKey grant.scope (.heldByAnotherShape reply))
    else .error (.engine error, p)
  | .created handle =>
    if handle.subscription ≠ grant.claim then
      .error (.claimRenamed handle.subscription grant.claim, p)
    else if handle.shapeId ≠ grant.shapeId ∨ handle.streamPath ≠ grant.path then
      let p := p.release grant.claim
      match releaseError with
      | some error => .error (.engine error, p)
      | none => .ok (p.deny grant.shapeKey grant.scope (.streamChanged reply))
    else if leaseCoversTtl handle.leaseSeconds options.ttlSeconds = false then
      .error (.leaseConfig handle.leaseSeconds options.ttlSeconds, p)
    else .ok (p.grant grant)

/-- The body of the re-mint loop: a grant without a scope is of the private tier. -/
def refreshGrant (options : SubscribeOptions) (claims : Option JwtClaims) (subject : String)
    (env : RefreshEnv) (p : Progress) (entry : StreamGrant × ℕ) : Step :=
  let (grant, i) := entry
  match grant.scope with
  | none =>
    match compileGrant options claims grant.shapeKey none with
    | .throws => .error (.predicateThrew, p)
    | .deny reason => .ok (p.deny grant.shapeKey none (.notCompiled reason))
    | .create _ request =>
      match grant.fp with
      | none => .ok (p.deny grant.shapeKey none .noFingerprint)
      | some fp =>
        if options.fingerprint request ≠ fp then
          .ok (p.deny grant.shapeKey none .predicateChanged)
        else renewGrantClaim options grant (env.create i) (env.releaseError i) p
  | some scope =>
    if options.hasEntitlements = false then
      .ok (p.deny grant.shapeKey (some scope) (.noEntitlementSet "grant"))
    else if (env.entitlements i).ready = false then .error (.entitlementsUnavailable, p)
    else if (env.entitlements i).permits subject grant.shapeKey scope = false then
      .ok (p.deny grant.shapeKey (some scope) (.notEntitled (env.entitlements i)))
    else
      match compileGrant options claims grant.shapeKey (some scope) with
      | .throws => .error (.predicateThrew, p)
      | .deny reason => .ok (p.deny grant.shapeKey (some scope) (.notCompiled reason))
      | .create _ _ => renewGrantClaim options grant (env.create i) (env.releaseError i) p

/-- `token` is what verifying the presented token gave; an expired one verifies too. -/
def refreshStreamToken (options : SubscribeOptions) (claims : Option JwtClaims)
    (token : Option StreamTokenClaims) (now : ℕ) (env : RefreshEnv) : Outcome :=
  match token, claims.bind (·.sub) with
  | some token, some subject =>
    if token.sub ≠ subject then ⟨.ok (none, []), [], []⟩
    else
      finish subject options.ttlSeconds now
        (token.grants.zipIdx.foldlM (refreshGrant options claims subject env) Progress.empty)
  | _, _ => ⟨.ok (none, []), [], []⟩

/-! ### A run of requests -/

inductive Request where
  | subscribe (claims : Option JwtClaims) (shapeKeys : List String) (now : ℕ) (env : SubscribeEnv)
  | refresh (claims : Option JwtClaims) (token : StreamTokenClaims) (now : ℕ) (env : RefreshEnv)

/-- One request.  A presented token verifies when this control plane signed it. -/
def serve (options : SubscribeOptions) (issued : List StreamTokenClaims) : Request → Outcome
  | .subscribe claims shapeKeys now env => subscribeToShapes options claims shapeKeys now env
  | .refresh claims token now env =>
    refreshStreamToken options claims (if token ∈ issued then some token else none) now env

/-- The token an answer carries. -/
def Outcome.token (outcome : Outcome) : Option StreamTokenClaims :=
  match outcome.answer with
  | .ok (token, _) => token
  | .error _ => none

def Outcome.denied (outcome : Outcome) : List DeniedSubscription :=
  match outcome.answer with
  | .ok (_, denied) => denied
  | .error _ => []

end ControlPlane
