/-
One router, the coordinators of its tabs and their engines, over first-in-first-out ports.

What a party posts on a port stays in its log, and each reader counts what it has read, so that the
next message of a port is the first one that was not read.  A control channel is one port, numbered
by its tab and its number in the tab; its engine end is handled by `startEngineControlPlane`
(`define-sync-worker.ts`), which also translates what a coordinator posts for the router.
-/
import Pgxsinkit.Placement.Coordinator
import Pgxsinkit.Placement.Router

namespace Placement

/-! ### The engine end of a control channel -/

/-- What the listener of a control channel remembers, and what it posted. -/
structure EnginePlane where
  assigned : Option EngineIdentity
  out : List EngineControlMessage

def EnginePlane.post (plane : EnginePlane) (message : EngineControlMessage) : EnginePlane :=
  { plane with out := plane.out ++ [message] }

/-- The listener of `startEngineControlPlane`. -/
def EnginePlane.receive (plane : EnginePlane) (message : EngineControlMessage) : EnginePlane :=
  match message with
  | .assignIdentity identity =>
    { plane with assigned := some identity }.post (.engineReady identity)
  | .controlPing identity pingId => plane.post (.controlAck (plane.assigned.getD identity) pingId)
  | .connectPort identity =>
    if shouldApplyControlMessage plane.assigned (.connectPort identity) then
      plane.post (.connectPortAck identity)
    else plane
  | .engineTeardown identity =>
    if shouldApplyControlMessage plane.assigned (.engineTeardown identity) then
      plane.post (.controlAck identity (-1))
    else plane
  | _ => plane

/-- The message is a teardown that the engine applies; its scope closes behind the ack. -/
def EnginePlane.tearsDown (plane : EnginePlane) : EngineControlMessage → Bool
  | .engineTeardown identity => shouldApplyControlMessage plane.assigned (.engineTeardown identity)
  | _ => false

/-! ### The whole -/

structure NetworkOptions where
  router : EngineRouterOptions
  coordinator : ℕ → CoordinatorOptions

structure Network where
  router : RouterState
  tabs : ℕ → CoordinatorState
  /-- the tab and the port behind each entry of the router -/
  entries : List (ℕ × ℕ)
  planes : ℕ → EnginePlane
  /-- the engine that a tab held when its retirement began -/
  retiringEngine : ℕ → Option ℕ
  /-- the engines, with their tabs, that have processed a teardown -/
  tornDown : List (ℕ × ℕ)
  /-- what was read of the port of a tab, by the router and by the tab -/
  readOfTab : ℕ → ℕ → ℕ
  readOfEntry : ℕ → ℕ
  /-- what was read of a control channel, by the engine and by the router -/
  readOfRouter : ℕ → ℕ
  readOfPlane : ℕ → ℕ

def Network.initial : Network where
  router := .initial
  tabs := fun _ => .initial
  entries := []
  planes := fun _ => ⟨none, []⟩
  retiringEngine := fun _ => none
  tornDown := []
  readOfTab := fun _ _ => 0
  readOfEntry := fun _ => 0
  readOfRouter := fun _ => 0
  readOfPlane := fun _ => 0

/-- The engine that an act terminates. -/
def Act.ended : Act → Option ℕ
  | .terminated engine _ => some engine
  | _ => none

/-- The number of a control channel of a tab. -/
def controlPort (tab channel : ℕ) : ℕ := Nat.pair tab channel

namespace Network

variable (options : NetworkOptions)

/-! ### The next message of a port -/

def nextOfTab (w : Network) (tab port : ℕ) : Option SwPost :=
  ((w.tabs tab).posts.filter (·.port = port))[w.readOfTab tab port]?

def nextOfEntry (w : Network) (entry : ℕ) : Option Post :=
  (w.router.posts.filter (·.dest = .tab entry))[w.readOfEntry entry]?

def nextOfRouter (w : Network) (port : ℕ) : Option Post :=
  (w.router.posts.filter (·.dest = .engine port))[w.readOfRouter port]?

def nextOfPlane (w : Network) (port : ℕ) : Option EngineControlMessage :=
  (w.planes port).out[w.readOfPlane port]?

/-! ### Moves of the parties -/

/-- A tab moves; the engine it holds is noted when its retirement begins. -/
def setTab (w : Network) (tab : ℕ) (s : CoordinatorState) : Network :=
  { w with
    tabs := Function.update w.tabs tab s
    retiringEngine :=
      if (w.tabs tab).retiring = false ∧ s.retiring = true then
        Function.update w.retiringEngine tab (w.tabs tab).engineHandle
      else w.retiringEngine }

def route (w : Network) (event : RouterEvent) : Network :=
  { w with router := w.router.step options.router event }

/-- The SharedWorker reads a message of a tab. -/
def readTabPost (w : Network) (entry tab : ℕ) (post : SwPost) : Network :=
  match post.message, post.channel with
  | .leaderGranted, _ => w.route options (.openHandoff .leaderGranted)
  | .engineAnnounce, some channel => w.route options (.announceEngine (controlPort tab channel))
  | .engineAnnounce, none => w
  | message, _ => w.route options (.tabMessage entry message)

/-- An engine reads a message of the router. -/
def readRouterPost (w : Network) (tab channel engine : ℕ) (message : EngineControlMessage) :
    Network :=
  let plane := w.planes (controlPort tab channel)
  { w with
    planes := Function.update w.planes (controlPort tab channel) (plane.receive message)
    tornDown := if plane.tearsDown message then w.tornDown ++ [(tab, engine)] else w.tornDown }

/-- The engine that listens on a control channel: the channel was the last delivered to it, and it
neither was terminated nor closed itself. -/
def listener (w : Network) (tab channel : ℕ) : Option ℕ :=
  match (w.tabs tab).channels[channel]? with
  | some (some engine) =>
    if some engine ∉ (w.tabs tab).channels.drop (channel + 1) ∧ (tab, engine) ∉ w.tornDown ∧
        some engine ∉ (w.tabs tab).acts.map Act.ended then some engine
    else none
  | _ => none

end Network

/-- What happens in the whole. -/
inductive NetworkEvent where
  /-- a claim, a timer, a grant or a call in a tab; its messages come over the ports -/
  | coordinator (tab : ℕ) (event : CoordinatorEvent)
  /-- the attach side of a tab reports a late dispatch, or leaves -/
  | overdueDispatch (tab : ℕ) (identity : EngineIdentity)
  | tabDetach (tab : ℕ)
  /-- a port of a tab is attached to the router -/
  | attach (tab port : ℕ)
  | closeEntry (entry : ℕ)
  /-- the SharedWorker reads the next message of an entry -/
  | toRouter (entry : ℕ)
  /-- the tab behind an entry reads the next message of the router -/
  | toTab (entry : ℕ)
  | toEngine (tab channel : ℕ)
  /-- the router's end of a control channel gets its next message -/
  | fromEngine (port : ℕ)
  | closeEngine (port : ℕ) (announced : EngineIdentity)
  | connectAckExpires
  | probeTimer

open Network in
def Network.step (options : NetworkOptions) (w : Network) : NetworkEvent → Option Network
  | .coordinator tab event =>
    match event with
    | .swMessage _ _ _ => none
    | event => ((w.tabs tab).step (options.coordinator tab) event).map (w.setTab tab)
  | .overdueDispatch tab identity =>
    some (w.setTab tab ((w.tabs tab).post (.overdueDispatch identity)))
  | .tabDetach tab => some (w.setTab tab ((w.tabs tab).post .tabDetach))
  | .attach tab port =>
    if (tab, port) ∉ w.entries ∧ port ≤ (w.tabs tab).swPort then
      some { w.route options .attachTab with entries := w.entries ++ [(tab, port)] }
    else none
  | .closeEntry entry => some (w.route options (.unregisterTab entry))
  | .toRouter entry =>
    match w.entries[entry]? with
    | none => none
    | some (tab, port) =>
      (w.nextOfTab tab port).map fun post =>
        { w with
          readOfTab := Function.update w.readOfTab tab
            (Function.update (w.readOfTab tab) port (w.readOfTab tab port + 1)) }.readTabPost
          options entry tab post
  | .toTab entry =>
    match w.entries[entry]?, w.nextOfEntry entry with
    | some (tab, port), some post =>
      ((w.tabs tab).step (options.coordinator tab) (.swMessage port post.message 0)).map fun s =>
        { w with
          readOfEntry := Function.update w.readOfEntry entry (w.readOfEntry entry + 1) }.setTab tab s
    | _, _ => none
  | .toEngine tab channel =>
    let port := controlPort tab channel
    match w.listener tab channel, w.nextOfRouter port with
    | some engine, some post =>
      some ({ w with
        readOfRouter := Function.update w.readOfRouter port (w.readOfRouter port + 1) }.readRouterPost
        tab channel engine post.message)
    | _, _ => none
  | .fromEngine port =>
    (w.nextOfPlane port).map fun message =>
      { w with
        readOfPlane := Function.update w.readOfPlane port (w.readOfPlane port + 1) }.route options
        (.controlMessage port message)
  | .closeEngine port announced => some (w.route options (.controlClose port announced))
  | .connectAckExpires => some (w.route options .connectAckExpires)
  | .probeTimer => some (w.route options .probeTimer)

end Placement
