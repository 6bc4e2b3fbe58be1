/-
The claims a request leaves at the engine, and the reasons it gives for a denial.

Each turn of the two loops is an `Attempt`, decided before the engine is asked; a request is the
run of its attempts (`subscribe_run`, `refresh_run`), so how it ends is settled by the first that
fails (`run_attempts`, `run_attempts_fails`).
-/
import Pgxsinkit.ControlPlane.Subscribe

namespace ControlPlane

/-- One turn of a loop: a denial, a failure before any create, the create of a new claim, or the
renewal of a grant's. -/
inductive Attempt where
  | denied (denial : DeniedSubscription)
  | fails (error : RequestError)
  | creates (shapeKey : String) (scope : Option Scope) (fp : Option String) (claim : String)
    (reply : EngineReply)
  | renews (grant : StreamGrant) (reply : EngineReply) (releaseError : Option EngineError)

namespace Attempt

variable {options : SubscribeOptions}

def run (options : SubscribeOptions) (p : Progress) : Attempt → Step
  | denied denial => .ok { p with denied := p.denied ++ [denial] }
  | fails error => .error (error, p)
  | creates shapeKey scope fp claim reply => takeClaim options shapeKey scope fp claim reply p
  | renews grant reply releaseError => renewGrantClaim options grant reply releaseError p

/-- The claim id and the reply of its create. -/
def create? : Attempt → Option (String × EngineReply)
  | creates _ _ _ claim reply => some (claim, reply)
  | renews grant reply _ => some (grant.claim, reply)
  | _ => none

/-- The claims its create recorded at the engine. -/
def recorded (attempt : Attempt) : List String :=
  attempt.create?.elim [] fun create => create.2.recorded create.1

/-- A create that was answered under the name it sent, with a lease that covers the TTL. -/
def Answered (options : SubscribeOptions) (claim : String) (handle : CircuitsShapeHandle) : Prop :=
  handle.subscription = claim ∧ leaseCoversTtl handle.leaseSeconds options.ttlSeconds = true

/-- The claims the attempt passes to `releaseShape`. -/
def released (options : SubscribeOptions) : Attempt → List String
  | creates _ _ _ claim (.created handle) =>
    if handle.subscription = claim ∧
        leaseCoversTtl handle.leaseSeconds options.ttlSeconds = false then [claim] else []
  | renews grant (.created handle) _ =>
    if handle.subscription = grant.claim ∧
        (handle.shapeId ≠ grant.shapeId ∨ handle.streamPath ≠ grant.path) then [grant.claim]
    else []
  | _ => []

end Attempt

/-! ### The attempts of a request -/

variable {options : SubscribeOptions} {claims : Option JwtClaims} {subject : String}

namespace Request

def authClaims : Request → Option JwtClaims
  | subscribe claims .. => claims
  | refresh claims .. => claims

/-- The grants of the presented token. -/
def presented : Request → List StreamGrant
  | subscribe .. => []
  | refresh _ token _ _ => token.grants

/-- The subject whose loop the request runs, if it gets that far. -/
def bearer (issued : List StreamTokenClaims) : Request → Option String
  | subscribe claims _ _ _ => claims.bind (·.sub)
  | refresh claims token _ _ =>
    if token ∈ issued then (claims.bind (·.sub)).filter (· = token.sub) else none

def now : Request → ℕ
  | subscribe _ _ now _ => now
  | refresh _ _ now _ => now

end Request

/-- Every claim the request's creates recorded at the engine is carried by the returned token, was
passed to `releaseShape`, or belonged to the presented token. -/
def NoStrandedClaims (request : Request) (outcome : Outcome) : Prop :=
  ∀ id ∈ outcome.recorded, (∃ token, outcome.token = some token ∧ ∃ grant ∈ token.grants,
    grant.claim = id) ∨ id ∈ outcome.released ∨ ∃ grant ∈ request.presented, grant.claim = id

/-- The denial is the deployment's, the current claims', a ready set's, or the engine's word that
the grant's stream is another one. -/
def DeniedSubscription.Honest (options : SubscribeOptions) (request : Request)
    (denial : DeniedSubscription) : Prop :=
  match denial.reason with
  | .noSubject => request.authClaims.bind (·.sub) = none
  | .noEntitlementSet _ => options.hasEntitlements = false
  | .noEntitledScopes asked => asked.ready = true ∧ ∃ subject,
      request.authClaims.bind (·.sub) = some subject ∧ asked.scopesFor subject denial.shapeKey = []
  | .notCompiled reason =>
    compileGrant options request.authClaims denial.shapeKey denial.scope = .deny reason
  | .notEntitled asked => asked.ready = true ∧ ∃ subject,
      request.authClaims.bind (·.sub) = some subject ∧
        asked.permits subject denial.shapeKey (denial.scope.getD []) = false
  | .noFingerprint => False
  | .predicateChanged => ∃ grant ∈ request.presented, grant.shapeKey = denial.shapeKey ∧
      ∃ tier shape fp, compileGrant options request.authClaims grant.shapeKey none = .create tier shape ∧
        grant.fp = some fp ∧ options.fingerprint shape ≠ fp
  | .heldByAnotherShape reply => ∃ recorded, reply = .failed (.status 409) recorded
  | .streamChanged reply => ∃ grant ∈ request.presented, grant.shapeKey = denial.shapeKey ∧
      ∃ handle, reply = .created handle ∧ (handle.shapeId ≠ grant.shapeId ∨
        handle.streamPath ≠ grant.path)

/-- The request serves its subject and denies nobody falsely. -/
def Kept (options : SubscribeOptions) (request : Request) (outcome : Outcome) : Prop :=
  NoStrandedClaims request outcome ∧ ∀ denial ∈ outcome.denied, denial.Honest options request

/-! ### Subscribe -/

end ControlPlane
