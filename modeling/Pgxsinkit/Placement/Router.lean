/-
The router of the SharedWorker (`engine-router.ts`).

A tab is its entry in the attach registry and an engine's control channel the port that was
announced; a pipe is numbered, and a post that transfers one of its ends carries the number.  A timer
that is armed is a field of the state, and its firing an event.
-/
import Pgxsinkit.Placement.Control

namespace Placement

structure EngineRouterOptions where
  swInstanceId : String
  executionLimitEnabled : Bool
  probeMissThreshold : ℕ

inductive Dest where
  | tab (entry : ℕ)
  | engine (port : ℕ)
deriving DecidableEq

/-- A posted message, with the pipe one end of which it transfers. -/
structure Post where
  dest : Dest
  message : EngineControlMessage
  pipe : Option ℕ
deriving DecidableEq

structure RouterState where
  /-- the attached tabs, in the order they attached -/
  tabs : List ℕ
  tabSeq : ℕ
  currentIdentity : Option EngineIdentity
  lastMinted : Option EngineIdentity
  controlPort : Option ℕ
  engineReady : Bool
  teardownForwarded : Option EngineIdentity
  /-- the identity the `connect-port-ack` window is armed for -/
  connectAckWindow : Option EngineIdentity
  probeRunning : Bool
  probeArmed : Bool
  missCount : ℕ
  pingSeq : ℕ
  pendingPingId : Option ℤ
  pipeSeq : ℕ
  /-- everything posted so far -/
  posts : List Post

def RouterState.initial : RouterState :=
  ⟨[], 0, none, none, none, false, none, none, false, false, 0, 0, none, 0, []⟩

namespace RouterState

variable (options : EngineRouterOptions)

def post (s : RouterState) (posts : List Post) : RouterState := { s with posts := s.posts ++ posts }

def fanToTabs (s : RouterState) (message : EngineControlMessage) : RouterState :=
  s.post (s.tabs.map fun tab => ⟨.tab tab, message, none⟩)

/-- One end of a new pipe to the engine, the other to the tab. -/
def deliverPipe (s : RouterState) (tab : ℕ) : RouterState :=
  match s.currentIdentity, s.controlPort with
  | some identity, some port =>
    let s := { s with pipeSeq := s.pipeSeq + 1 }.post
      [⟨.engine port, .connectPort identity, some s.pipeSeq⟩,
        ⟨.tab tab, .connectPort identity, some s.pipeSeq⟩]
    if options.executionLimitEnabled then { s with connectAckWindow := some identity } else s
  | _, _ => s

def resetProbe (s : RouterState) : RouterState :=
  { s with probeRunning := false, probeArmed := false, missCount := 0, pendingPingId := none }

def clearEngine (s : RouterState) : RouterState :=
  { s.resetProbe with
    connectAckWindow := none
    controlPort := none
    teardownForwarded := none
    currentIdentity := none
    engineReady := false }

def retireCurrentEngine (s : RouterState) : RouterState :=
  match s.currentIdentity with
  | none => s.clearEngine
  | some retiring => s.clearEngine.fanToTabs (.engineRetiring retiring)

/-- A tick of the probe loop; an unanswered ping is counted before the next is sent. -/
def probeTick (s : RouterState) : RouterState :=
  match s.currentIdentity, s.controlPort with
  | some identity, some port =>
    let missCount := if s.pendingPingId.isSome then s.missCount + 1 else s.missCount
    if s.pendingPingId.isSome ∧ options.probeMissThreshold ≤ missCount then
      s.resetProbe.retireCurrentEngine
    else
      { s with
        missCount := missCount
        pingSeq := s.pingSeq + 1
        pendingPingId := some (s.pingSeq + 1 : ℕ)
        probeArmed := true }.post [⟨.engine port, .controlPing identity (s.pingSeq + 1 : ℕ), none⟩]
  | _, _ => s.resetProbe

def startProbe (s : RouterState) : RouterState :=
  if s.probeRunning then s
  else { s with probeRunning := true, missCount := 0, pendingPingId := none, probeArmed := true }

def onControlPortClose (s : RouterState) (port : ℕ) (announced : EngineIdentity) : RouterState :=
  if s.controlPort ≠ some port then s
  else if s.currentIdentity ≠ some announced then s
  else if s.teardownForwarded = some announced then s.clearEngine
  else s.retireCurrentEngine

/-- A message of the port whose listener is the router's. -/
def onControlMessage (s : RouterState) (message : EngineControlMessage) : RouterState :=
  match message with
  | .engineReady identity =>
    if shouldApplyControlMessage s.currentIdentity (.engineReady identity) then
      s.tabs.foldl (deliverPipe options) { s with engineReady := true }
    else s
  | .connectPortAck identity =>
    if shouldApplyControlMessage s.currentIdentity (.connectPortAck identity) then
      { s with connectAckWindow := none }
    else s
  | .controlAck identity pingId =>
    if shouldApplyControlMessage s.currentIdentity (.controlAck identity pingId) ∧
        s.pendingPingId = some pingId then s.resetProbe
    else s.fanToTabs (.controlAck identity pingId)
  | _ => s

def removeTab (s : RouterState) (tab : ℕ) : RouterState :=
  { s with tabs := s.tabs.filter (· ≠ tab) }

def onTabMessage (s : RouterState) (tab : ℕ) (message : EngineControlMessage) : RouterState :=
  match message with
  | .controlPing identity pingId => s.post [⟨.tab tab, .controlAck identity pingId, none⟩]
  | .overdueDispatch identity =>
    if options.executionLimitEnabled ∧
        shouldApplyControlMessage s.currentIdentity (.overdueDispatch identity) then s.startProbe
    else s
  | .engineTeardown identity =>
    if shouldApplyControlMessage s.currentIdentity (.engineTeardown identity) then
      { s with teardownForwarded := some identity }.post
        (s.controlPort.toList.map fun port => ⟨.engine port, .engineTeardown identity, none⟩)
    else s
  | .tabDetach => s.removeTab tab
  | _ => s

def attachTab (s : RouterState) : RouterState :=
  let tab := s.tabSeq
  let s := { s with tabs := s.tabs ++ [tab], tabSeq := s.tabSeq + 1 }
  if s.currentIdentity.isSome ∧ s.engineReady then s.deliverPipe options tab else s

def announceEngine (s : RouterState) (port : ℕ) : RouterState :=
  let s := s.clearEngine
  let minted := mintEngineIdentity options.swInstanceId s.lastMinted
  { s with lastMinted := some minted, currentIdentity := some minted, controlPort := some port }.post
    [⟨.engine port, .assignIdentity minted, none⟩]

inductive HandoffReason where
  | leaderGranted | engineRetiring

def openHandoff (s : RouterState) : HandoffReason → RouterState
  | .engineRetiring => s.retireCurrentEngine
  | .leaderGranted => s.clearEngine.fanToTabs .leaderGranted

end RouterState

/-- What happens to the router. -/
inductive RouterEvent where
  | attachTab
  /-- the unregister function of a tab, or the close of its port -/
  | unregisterTab (tab : ℕ)
  | tabMessage (tab : ℕ) (message : EngineControlMessage)
  | announceEngine (port : ℕ)
  | controlMessage (port : ℕ) (message : EngineControlMessage)
  /-- the close of a port that was announced under `announced` -/
  | controlClose (port : ℕ) (announced : EngineIdentity)
  | openHandoff (reason : RouterState.HandoffReason)
  | connectAckExpires
  | probeTimer

/-- A listener that was detached hears nothing, and a timer that was cleared does not fire. -/
def RouterState.step (options : EngineRouterOptions) (s : RouterState) : RouterEvent → RouterState
  | .attachTab => s.attachTab options
  | .unregisterTab tab => s.removeTab tab
  | .tabMessage tab message => if tab ∈ s.tabs then s.onTabMessage options tab message else s
  | .announceEngine port => s.announceEngine options port
  | .controlMessage port message =>
    if s.controlPort = some port then s.onControlMessage options message else s
  | .controlClose port announced => s.onControlPortClose port announced
  | .openHandoff reason => s.openHandoff reason
  | .connectAckExpires =>
    match s.connectAckWindow with
    | none => s
    | some armedFor =>
      let s := { s with connectAckWindow := none }
      if s.currentIdentity = some armedFor then s.startProbe else s
  | .probeTimer => if s.probeArmed then { s with probeArmed := false }.probeTick options else s

def RouterState.run (options : EngineRouterOptions) (events : List RouterEvent) : RouterState :=
  events.foldl (RouterState.step options) .initial

end Placement
