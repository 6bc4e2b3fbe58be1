/-
The control plane of engine placement (`engine-control.ts`): identities and messages.
-/
import Mathlib

namespace Placement

/-- The pair that names an announced engine. -/
structure EngineIdentity where
  swInstanceId : String
  generation : ℤ
deriving DecidableEq

def mintEngineIdentity (swInstanceId : String) (previous : Option EngineIdentity) :
    EngineIdentity :=
  match previous with
  | none => ⟨swInstanceId, 0⟩
  | some previous =>
    if previous.swInstanceId = swInstanceId then ⟨swInstanceId, previous.generation + 1⟩
    else ⟨swInstanceId, 0⟩

inductive EngineControlMessage where
  | leaderGranted
  | engineAnnounce
  | tabDetach
  | engineFallback (reason : String)
  | assignIdentity (identity : EngineIdentity)
  | engineReady (identity : EngineIdentity)
  | connectPort (identity : EngineIdentity)
  | connectPortAck (identity : EngineIdentity)
  | controlPing (identity : EngineIdentity) (pingId : ℤ)
  | controlAck (identity : EngineIdentity) (pingId : ℤ)
  | overdueDispatch (identity : EngineIdentity)
  | engineRetiring (identity : EngineIdentity)
  | engineTeardown (identity : EngineIdentity)
deriving DecidableEq

/-- A tagged message is applied under exactly the identity it carries. -/
def shouldApplyControlMessage (current : Option EngineIdentity) : EngineControlMessage → Bool
  | .leaderGranted | .engineAnnounce | .assignIdentity _ | .tabDetach | .engineFallback _ => true
  | .engineReady identity | .connectPort identity | .connectPortAck identity
  | .controlPing identity _ | .controlAck identity _ | .overdueDispatch identity
  | .engineRetiring identity | .engineTeardown identity => current = some identity

end Placement
