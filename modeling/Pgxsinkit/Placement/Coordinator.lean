/-
The election coordinator of a tab (`election-coordinator.ts`).

What a handler does up to its next `await` is one event; the continuation behind an `await` is an
event of its own.  The lock manager of the browser holds the tab's request and its grant: a request
that was aborted is never granted, and a grant waits until the one before it was settled.  Engines,
requests, claims and control channels are numbered as they are made.
-/
import Pgxsinkit.Lib.Runs
import Pgxsinkit.Placement.Control

namespace Placement

/-- The nonce identity of the keepalive. -/
def KEEPALIVE_IDENTITY : EngineIdentity := ⟨"keepalive", 0⟩

/-- What a retirement names when the identity of the engine was never learned. -/
def RETIRE_UNKNOWN_IDENTITY : EngineIdentity := ⟨"", -1⟩

structure CoordinatorOptions where
  keepaliveMissThreshold : ℕ
  /-- whether the attach input can build the SharedWorker again -/
  reconstructSw : Bool

inductive LockState where
  | idle | queued | granted
deriving DecidableEq

/-- Why an engine worker is terminated, with the engine that the event was about. -/
inductive Cause where
  | error (engine : ℕ)
  | verdict (engine : ℕ)
  | retirement
deriving DecidableEq

/-- What the coordinator does to the lock and to its workers, in order. -/
inductive Act where
  | granted (request : ℕ)
  | settled (request : ℕ)
  | spawned (engine : ℕ)
  | terminated (engine : ℕ) (cause : Cause)
  /-- a call of `retireEngine` that found the engine resolves -/
  | retireResolved (engine : ℕ)
deriving DecidableEq

/-- A message to a SharedWorker, with the control channel whose router end it transfers. -/
structure SwPost where
  port : ℕ
  message : EngineControlMessage
  channel : Option ℕ
deriving DecidableEq

/-- A call of `retireEngine` that found an engine and did not resolve yet. -/
structure RetireCall where
  engine : ℕ
  /-- its `runRetirement` has not resolved -/
  retiring : Bool
deriving DecidableEq

structure CoordinatorState where
  claimCount : ℕ
  /-- the claims whose release function has not run -/
  claims : List ℕ
  claimSeq : ℕ
  lockState : LockState
  /-- the request that the lock manager has queued -/
  request : Option ℕ
  requestSeq : ℕ
  /-- the grant whose promise is not settled; the lock is held -/
  grantSettle : Option ℕ
  swPort : ℕ
  engineHandle : Option ℕ
  engineSeq : ℕ
  /-- the engine that each control channel was delivered to -/
  channels : List (Option ℕ)
  currentIdentity : Option EngineIdentity
  retiring : Bool
  teardownWait : Option EngineIdentity
  bfcacheSuspended : Bool
  /-- the page is frozen -/
  frozen : Bool
  keepaliveArmed : Bool
  keepaliveMisses : ℕ
  pendingKeepalivePingId : Option ℤ
  pingSeq : ℕ
  /-- the verdicts that await the release of the ownership -/
  verdicts : ℕ
  retireCalls : List RetireCall
  posts : List SwPost
  acts : List Act

def CoordinatorState.initial : CoordinatorState where
  claimCount := 0
  claims := []
  claimSeq := 0
  lockState := .idle
  request := none
  requestSeq := 0
  grantSettle := none
  swPort := 0
  engineHandle := none
  engineSeq := 0
  channels := []
  currentIdentity := none
  retiring := false
  teardownWait := none
  bfcacheSuspended := false
  frozen := false
  keepaliveArmed := false
  keepaliveMisses := 0
  pendingKeepalivePingId := none
  pingSeq := 0
  verdicts := 0
  retireCalls := []
  posts := []
  acts := []

namespace CoordinatorState

variable (options : CoordinatorOptions)

def post (s : CoordinatorState) (message : EngineControlMessage) : CoordinatorState :=
  { s with posts := s.posts ++ [⟨s.swPort, message, none⟩] }

def act (s : CoordinatorState) (acts : List Act) : CoordinatorState :=
  { s with acts := s.acts ++ acts }

def isLeader (s : CoordinatorState) : Bool := s.lockState = .granted

/-! ### Engines -/

/-- `engineHandle?.terminate()` -/
def terminateEngine (s : CoordinatorState) (cause : Cause) : CoordinatorState :=
  s.act (s.engineHandle.toList.map (.terminated · cause))

def spawnEngine (s : CoordinatorState) : CoordinatorState :=
  { s with engineHandle := some s.engineSeq, engineSeq := s.engineSeq + 1 }.act
    [.spawned s.engineSeq]

/-- A fresh control channel; its other end goes to the engine that was spawned last. -/
def announce (s : CoordinatorState) : CoordinatorState :=
  { s with
    channels := s.channels ++ [if s.engineSeq = 0 then none else some (s.engineSeq - 1)]
    posts := s.posts ++ [⟨s.swPort, .engineAnnounce, some s.channels.length⟩] }

/-! ### The leader keepalive -/

def startKeepalive (s : CoordinatorState) : CoordinatorState :=
  { s with keepaliveMisses := 0, pendingKeepalivePingId := none, keepaliveArmed := true }

def stopKeepalive (s : CoordinatorState) : CoordinatorState :=
  { s with keepaliveMisses := 0, pendingKeepalivePingId := none, keepaliveArmed := false }

def onKeepaliveThreshold (s : CoordinatorState) : CoordinatorState :=
  let s := s.stopKeepalive
  if options.reconstructSw then { s with swPort := s.swPort + 1 }.announce.startKeepalive else s

def keepaliveTick (s : CoordinatorState) : CoordinatorState :=
  let s := { s with
    keepaliveArmed := false
    pingSeq := s.pingSeq + 1
    pendingKeepalivePingId := some (s.pingSeq + 1 : ℕ) }.post
      (.controlPing KEEPALIVE_IDENTITY (s.pingSeq + 1 : ℕ))
  let s := { s with keepaliveMisses := s.keepaliveMisses + 1 }
  if options.keepaliveMissThreshold ≤ s.keepaliveMisses then s.onKeepaliveThreshold options
  else { s with keepaliveArmed := true }

/-! ### Retirement -/

/-- `runRetirement`, up to the wait for the teardown ack. -/
def runRetirement (s : CoordinatorState) : CoordinatorState :=
  if s.retiring then s
  else
    let identity := s.currentIdentity.getD RETIRE_UNKNOWN_IDENTITY
    { ({ s with retiring := true }.stopKeepalive.post (.engineRetiring identity)).post
        (.engineTeardown identity) with teardownWait := some identity }

def settleGrant (s : CoordinatorState) : CoordinatorState :=
  { s with grantSettle := none, lockState := .idle }.act (s.grantSettle.toList.map .settled)

/-- `runRetirement`, behind the wait; the calls of `retireEngine` that await it go on. -/
def finishRetirement (s : CoordinatorState) : CoordinatorState :=
  let s := s.terminateEngine .retirement
  let s := { s with engineHandle := none, currentIdentity := none, retiring := false }.settleGrant
  { s with retireCalls := s.retireCalls.map fun call => { call with retiring := false } }

def retireEngine (s : CoordinatorState) : CoordinatorState :=
  match s.isLeader, s.engineHandle with
  | true, some engine =>
    let call : RetireCall := ⟨engine, !s.retiring⟩
    { s with retireCalls := s.retireCalls ++ [call] }.runRetirement
  | _, _ => s

/-! ### Claims and the lock -/

def queueLock (s : CoordinatorState) : CoordinatorState :=
  if s.lockState = .idle then
    { s with lockState := .queued, request := some s.requestSeq, requestSeq := s.requestSeq + 1 }
  else s

def addClaim (s : CoordinatorState) : CoordinatorState :=
  let s := { s with
    claimCount := s.claimCount + 1, claims := s.claims ++ [s.claimSeq], claimSeq := s.claimSeq + 1 }
  if s.claimCount = 1 then s.queueLock else s

def releaseClaim (s : CoordinatorState) : CoordinatorState :=
  if s.claimCount = 0 then s
  else
    let s := { s with claimCount := s.claimCount - 1 }
    if 0 < s.claimCount then s
    else
      match s.lockState with
      | .queued => { s with request := none, lockState := .idle }
      | .granted => s.runRetirement
      | .idle => s

/-- The release function of a claim: its first call, or its expiry. -/
def release (s : CoordinatorState) (claim : ℕ) : CoordinatorState :=
  if claim ∈ s.claims then { s with claims := s.claims.erase claim }.releaseClaim else s

/-- The callback of the lock request. -/
def onLock (s : CoordinatorState) (request : ℕ) : CoordinatorState :=
  let s := { s with request := none, lockState := .granted, grantSettle := some request }.act
    [.granted request]
  if s.claimCount = 0 then s.settleGrant
  else (s.post .leaderGranted).spawnEngine.announce.startKeepalive

/-! ### Engine loss -/

def onEngineError (s : CoordinatorState) (engine : ℕ) : CoordinatorState :=
  if s.isLeader then
    { s.terminateEngine (.error engine) with currentIdentity := none }.spawnEngine.announce
  else s

/-- `onExecutionLimitVerdict`, up to the wait for the ownership release. -/
def onExecutionLimitVerdict (s : CoordinatorState) (engine : ℕ) : CoordinatorState :=
  { s.terminateEngine (.verdict engine) with
    engineHandle := none, currentIdentity := none, verdicts := s.verdicts + 1 }

/-- `onExecutionLimitVerdict`, behind the wait. -/
def finishVerdict (s : CoordinatorState) : CoordinatorState :=
  let s := { s with verdicts := s.verdicts - 1 }
  if s.isLeader then s.spawnEngine.announce else s

/-! ### Messages of the SharedWorker and of the page -/

def teardownAckMatches (s : CoordinatorState) (acked : EngineIdentity) : Bool :=
  match s.teardownWait with
  | none => false
  | some identity => identity = RETIRE_UNKNOWN_IDENTITY ∨ identity = acked

def handleControlMessage (s : CoordinatorState) (message : EngineControlMessage) (engine : ℕ) :
    CoordinatorState :=
  match message with
  | .controlAck identity pingId =>
    if s.teardownAckMatches identity then { s with teardownWait := none }
    else if s.pendingKeepalivePingId = some pingId then
      { s with keepaliveMisses := 0, pendingKeepalivePingId := none }
    else s
  | .engineRetiring identity =>
    if s.isLeader ∧ s.currentIdentity = some identity then s.onExecutionLimitVerdict engine else s
  | .engineReady identity | .connectPort identity => { s with currentIdentity := some identity }
  | _ => s

def onPageHide (s : CoordinatorState) (persisted : Bool) : CoordinatorState :=
  if persisted then
    let s := { s with frozen := true }
    if s.lockState = .granted then { s with bfcacheSuspended := true }.runRetirement else s
  else s

def onPageShow (s : CoordinatorState) : CoordinatorState :=
  let s := { s with frozen := false }
  if s.bfcacheSuspended then
    let s := { s with bfcacheSuspended := false }
    if 0 < s.claimCount then s.queueLock else s
  else s

end CoordinatorState

/-- What happens to the coordinator. -/
inductive CoordinatorEvent where
  /-- `claimForProvision` or `claimForAttach` -/
  | claim
  | release (claim : ℕ)
  /-- the lock manager grants the request that is queued -/
  | lockGranted
  /-- an error event of an engine worker, late ones included -/
  | engineError (engine : ℕ)
  /-- a message on a port to the SharedWorker; a verdict is about the engine given with it -/
  | swMessage (port : ℕ) (message : EngineControlMessage) (engine : ℕ)
  | keepaliveTimer
  | teardownTimeout
  | retirementResumes
  /-- the ownership release that a verdict awaits -/
  | verdictResumes
  | pageHide (persisted : Bool)
  | pageShow
  | retireEngine
  /-- the ownership release that a call of `retireEngine` awaits -/
  | retireResumes (call : ℕ)

open CoordinatorState in
def CoordinatorState.step (options : CoordinatorOptions) (s : CoordinatorState) :
    CoordinatorEvent → Option CoordinatorState
  | .claim => some s.addClaim
  | .release claim => some (s.release claim)
  | .lockGranted =>
    match s.request, s.grantSettle with
    | some request, none => some (s.onLock request)
    | _, _ => none
  | .engineError engine => some (s.onEngineError engine)
  | .swMessage port message engine =>
    some (if port = s.swPort then s.handleControlMessage message engine else s)
  | .keepaliveTimer => if s.keepaliveArmed then some (s.keepaliveTick options) else none
  | .teardownTimeout =>
    match s.teardownWait with
    | none => none
    | some _ => some { s with teardownWait := none }
  | .retirementResumes =>
    if s.retiring ∧ s.teardownWait = none then some s.finishRetirement else none
  | .verdictResumes => if 0 < s.verdicts then some s.finishVerdict else none
  | .pageHide persisted => some (s.onPageHide persisted)
  | .pageShow => some s.onPageShow
  | .retireEngine => some s.retireEngine
  | .retireResumes call =>
    match s.retireCalls[call]? with
    | some ⟨engine, false⟩ =>
      some ({ s with retireCalls := s.retireCalls.eraseIdx call }.act [.retireResolved engine])
    | _ => none

end Placement
