/-
The live-query manager, at await granularity.

Between two awaits the manager runs on without interruption, so a step takes one continuation from
the await it waits behind to the next; which of the continuations that may run runs next is up to
the run.  The entries live in a heap, and the map of the entries names the current one of each
fingerprint.  `results` is no field of the source: it is what the engine has told a registration.
-/
import Pgxsinkit.LiveQueries.Diff

namespace LiveQueries

/-! ### Queries -/

structure LiveQuerySpec (V : Type) where
  materialSql : String
  params : List V
  pkColumns : Option (List String)

inductive QueryMode
  | inc
  | full
  deriving DecidableEq, Repr

/-- What the fingerprint's JSON is made of. -/
structure Fingerprint (E : Type) where
  sql : String
  params : List E
  pk : Option (List String)
  mode : QueryMode
  deriving DecidableEq, Repr

structure LiveQueryPolicy where
  defaultKeepAliveMs : ℚ
  maxRetainedQueries : ℕ
  maxRetainedRows : ℕ

/-- `encodeValue` may give a value a token of the call's own, so that it is never shared. -/
structure LiveQueryManagerDeps (V E : Type) where
  policy : LiveQueryPolicy
  rendering : Rendering V
  encodeValue : ℕ → V → E

variable {V E : Type}

def fingerprintLiveQuery (deps : LiveQueryManagerDeps V E) (call : ℕ) (spec : LiveQuerySpec V) :
    Fingerprint E where
  sql := spec.materialSql
  params := spec.params.map (deps.encodeValue call)
  pk := spec.pkColumns
  mode :=
    match spec.pkColumns with
    | some [_] => .inc
    | _ => .full

def decimal (digits : List Char) : ℕ := digits.foldl (fun n c => 10 * n + (c.toNat - '0'.toNat)) 0

/-- `sql.matchAll(/\$(\d+)/g)`: the digits read behind a dollar, `none` outside of a match. -/
def placeholders : Option (List Char) → List Char → List ℕ
  | none, [] | some [], [] => []
  | some digits, [] => [decimal digits]
  | none, c :: cs => placeholders (if c = '$' then some [] else none) cs
  | some digits, c :: cs =>
    if c.isDigit then placeholders (some (digits ++ [c])) cs
    else
      (if digits = [] then [] else [decimal digits]) ++
        placeholders (if c = '$' then some [] else none) cs

def liveQueryParamsSafe (spec : LiveQuerySpec V) : Bool :=
  spec.params.isEmpty ||
    placeholders none spec.materialSql.toList == (List.range spec.params.length).map (· + 1)

inductive KeepAliveHint
  | absent
  | notFinite
  | ms (value : ℚ)

def MAX_KEEP_ALIVE_MS : ℚ := 2147483647

/-- The hint of a subscriber, `none` when it is refused. -/
def KeepAliveHint.read : KeepAliveHint → Option ℚ
  | .absent => some 0
  | .notFinite => none
  | .ms value => if value < 0 ∨ MAX_KEEP_ALIVE_MS < value then none else some value

/-! ### Entries and calls -/

inductive Setup
  | pending
  | resolved
  | rejected
  deriving DecidableEq, Repr

/-- The registration at the engine. -/
inductive Registration
  | requested
  | active
  | failed
  /-- made, but lost to the manager because its setup threw -/
  | lost
  | unsubscribing
  | unsubscribed
  deriving DecidableEq, Repr

inductive Teardown
  | awaitingSetup
  | unsubscribing
  | complete
  deriving DecidableEq, Repr

structure LiveEntry (V E : Type) where
  key : Fingerprint E
  setup : Setup
  subscribers : List ℕ
  registration : Registration
  state : LiveDiffState V
  torn : Bool
  teardown : Option Teardown
  refreshInFlight : Bool
  lastUsedAt : ℚ
  evictionTimer : Option ℕ
  generationKeepAliveMs : ℚ
  results : List (List (Row V))

inductive CallPhase
  | awaitTeardown (entry : ℕ)
  | awaitSetup (entry : ℕ)
  | subscribed (entry : ℕ)
  | unsubscribed (entry : ℕ)
  | failed
  deriving DecidableEq, Repr

/-- One call of `subscribe`, and what its subscriber was given. -/
structure SubscribeCall (V E : Type) where
  key : Fingerprint E
  keepAliveMs : ℚ
  phase : CallPhase
  initial : List (Row V)
  received : List (LiveDiff V)
  /-- how many results the engine had told when the subscriber joined -/
  joinedAt : ℕ

inductive Disposal
  | awaitSetups (snapshot : List ℕ)
  | awaitTeardowns (snapshot : List ℕ)
  | resolved
  deriving DecidableEq, Repr

structure LiveQueryManager (V E : Type) where
  entries : Fingerprint E → Option ℕ
  heap : ℕ → Option (LiveEntry V E)
  made : ℕ
  calls : ℕ → Option (SubscribeCall V E)
  setups : List ℕ
  retained : List ℕ
  timers : List (ℕ × ℕ)
  timersMade : ℕ
  enforceQueued : ℕ
  disposed : Bool
  disposals : ℕ → Option Disposal

def LiveQueryManager.initial : LiveQueryManager V E where
  entries _ := none
  heap _ := none
  made := 0
  calls _ := none
  setups := []
  retained := []
  timers := []
  timersMade := 0
  enforceQueued := 0
  disposed := false
  disposals _ := none

namespace LiveQueryManager

section

variable (deps : LiveQueryManagerDeps V E) (s : LiveQueryManager V E)

def modify (id : ℕ) (f : LiveEntry V E → LiveEntry V E) : LiveQueryManager V E :=
  { s with heap := Function.update s.heap id ((s.heap id).map f) }

def modifyCall (call : ℕ) (f : SubscribeCall V E → SubscribeCall V E) : LiveQueryManager V E :=
  { s with calls := Function.update s.calls call ((s.calls call).map f) }

/-! ### Teardown and retention -/

def tearDownEntry (id : ℕ) : LiveQueryManager V E :=
  s.modify id fun entry =>
    if entry.torn then entry else { entry with torn := true, teardown := some .awaitingSetup }

def clearTimer (handle : Option ℕ) : LiveQueryManager V E :=
  match handle with
  | none => s
  | some handle => { s with timers := s.timers.filter (·.1 ≠ handle) }

def cancelEviction (id : ℕ) : LiveQueryManager V E :=
  let s := s.clearTimer ((s.heap id).bind (·.evictionTimer))
  let s := s.modify id fun entry => { entry with evictionTimer := none }
  { s with retained := s.retained.filter (· ≠ id) }

def retainedRowTotal : ℕ :=
  (s.retained.map fun id => ((s.heap id).map (·.state.previous.size)).getD 0).sum

def overBudget : Bool :=
  deps.policy.maxRetainedQueries < s.retained.length ||
    deps.policy.maxRetainedRows < s.retainedRowTotal

/-- The retained entry used longest ago. -/
def victim : Option ℕ :=
  let used := fun id => ((s.heap id).map (·.lastUsedAt)).getD 0
  s.retained.foldl (fun victim id =>
    match victim with
    | none => some id
    | some best => if used id < used best then some id else some best) none

/-- The loop of `enforceBudgets`, which takes one entry off `retained` each time. -/
def evictLoop : ℕ → LiveQueryManager V E → LiveQueryManager V E
  | 0, s => s
  | fuel + 1, s =>
    if s.overBudget deps then
      match s.victim with
      | none => s
      | some id => evictLoop fuel ((s.cancelEviction id).tearDownEntry id)
    else s

def enforceBudgets : LiveQueryManager V E :=
  if s.disposed then s else s.evictLoop deps s.retained.length

def onEvictionTimer (id : ℕ) : LiveQueryManager V E :=
  let s := s.modify id fun entry => { entry with evictionTimer := none }
  match s.heap id with
  | none => s
  | some entry =>
    if entry.torn || !s.retained.contains id || !entry.subscribers.isEmpty then s
    else { s with retained := s.retained.filter (· ≠ id) }.tearDownEntry id

/-- The part of `removeSubscriber` that retains an entry. -/
def retain (id : ℕ) (now : ℚ) : LiveQueryManager V E :=
  let s := s.modify id fun entry =>
    { entry with lastUsedAt := now, evictionTimer := some s.timersMade }
  { s with
    retained := if id ∈ s.retained then s.retained else s.retained ++ [id]
    timers := (s.timersMade, id) :: s.timers
    timersMade := s.timersMade + 1 }

def removeSubscriber (id call : ℕ) (now : ℚ) : LiveQueryManager V E :=
  match s.heap id with
  | none => s
  | some entry =>
    if call ∉ entry.subscribers then s
    else
      let subscribers := entry.subscribers.filter (· ≠ call)
      let s := s.modify id fun entry => { entry with subscribers := subscribers }
      if subscribers ≠ [] then s
      else if max deps.policy.defaultKeepAliveMs entry.generationKeepAliveMs ≤ 0 ∨ s.disposed ∨
          entry.torn then
        s.tearDownEntry id
      else (s.retain id now).enforceBudgets deps

/-! ### Subscribing -/

def createEntry (key : Fingerprint E) : LiveEntry V E where
  key := key
  setup := .pending
  subscribers := []
  registration := .requested
  state := ⟨key.pk, OrdMap.empty⟩
  torn := false
  teardown := none
  refreshInFlight := false
  lastUsedAt := 0
  evictionTimer := none
  generationKeepAliveMs := 0
  results := []

variable [DecidableEq E]

/-- The part of `subscribe` between `entries.get(key)` and the next await. -/
def resolveEntry (call : ℕ) (key : Fingerprint E) : LiveQueryManager V E :=
  match s.entries key with
  | none =>
    let s : LiveQueryManager V E := { s with
      heap := Function.update s.heap s.made (some (createEntry key))
      entries := Function.update s.entries key (some s.made)
      made := s.made + 1 }
    s.modifyCall call fun c => { c with phase := .awaitSetup (s.made - 1) }
  | some id =>
    if ((s.heap id).map (·.torn)).getD false then
      s.modifyCall call fun c => { c with phase := .awaitTeardown id }
    else
      let s := if id ∈ s.retained then s.cancelEviction id else s
      s.modifyCall call fun c => { c with phase := .awaitSetup id }

def subscribe (call : ℕ) (spec : LiveQuerySpec V) (hint : KeepAliveHint) : LiveQueryManager V E :=
  let key := fingerprintLiveQuery deps call spec
  let record := fun phase keepAliveMs => (⟨key, keepAliveMs, phase, [], [], 0⟩ : SubscribeCall V E)
  let refused : LiveQueryManager V E :=
    { s with calls := Function.update s.calls call (some (record .failed 0)) }
  if s.disposed then refused
  else
    match hint.read with
    | none => refused
    | some keepAliveMs =>
      if liveQueryParamsSafe spec then
        let s : LiveQueryManager V E := { s with
          setups := s.setups ++ [call]
          calls := Function.update s.calls call (some (record .failed keepAliveMs)) }
        s.resolveEntry call key
      else refused

/-- The end of `subscribe`, which takes the call off `setups`. -/
def settleCall (call : ℕ) (phase : CallPhase) : LiveQueryManager V E :=
  let s := s.modifyCall call fun c => { c with phase := phase }
  { s with setups := s.setups.filter (· ≠ call) }

/-- The join: the snapshot and the membership in one go, rolled back when `deliverInitial` throws. -/
def join (id call : ℕ) (throws : Bool) : LiveQueryManager V E :=
  match s.heap id, s.calls call with
  | some entry, some record =>
    let generationKeepAliveMs :=
      if entry.subscribers = [] then record.keepAliveMs
      else max entry.generationKeepAliveMs record.keepAliveMs
    let s := s.modify id fun entry =>
      { entry with generationKeepAliveMs := generationKeepAliveMs }
    if throws then
      let s := if entry.subscribers = [] then s.tearDownEntry id else s
      s.settleCall call .failed
    else
      let s := s.modify id fun entry => { entry with subscribers := entry.subscribers ++ [call] }
      let s := s.modifyCall call fun c =>
        { c with
          initial := entry.state.previous.entries.map Prod.snd
          joinedAt := entry.results.length }
      s.settleCall call (.subscribed id)
  | _, _ => s

/-! ### The registration -/

/-- The setup behind its await; it throws where a row has no key. -/
def registered (outcome : Option (List (Row V))) (entry : LiveEntry V E) : LiveEntry V E :=
  match outcome with
  | none => { entry with setup := .rejected, registration := .failed }
  | some rows =>
    match seedLiveDiffState deps.rendering rows entry.key.pk with
    | none => { entry with setup := .rejected, registration := .lost }
    | some state =>
      { entry with setup := .resolved, registration := .active, state := state, results := [rows] }

variable [DecidableEq V]

/-- The listener; a subscriber that throws does not keep the diff from its siblings. -/
def notify (id : ℕ) (rows : List (Row V)) : LiveQueryManager V E :=
  match s.heap id with
  | none => s
  | some entry =>
    match computeLiveDiff deps.rendering entry.state rows with
    | none => s.modify id fun entry => { entry with results := entry.results ++ [rows] }
    | some (diff, state) =>
      let s := s.modify id fun entry =>
        { entry with state := state, results := entry.results ++ [rows] }
      let s : LiveQueryManager V E := { s with
        calls := fun call =>
          if call ∈ entry.subscribers then
            (s.calls call).map fun c => { c with received := c.received ++ [diff] }
          else s.calls call }
      if id ∈ s.retained then { s with enforceQueued := s.enforceQueued + 1 } else s

omit [DecidableEq V] in
/-- The slot goes, if it is still the entry's. -/
def dropSlot (id : ℕ) : LiveQueryManager V E :=
  match s.heap id with
  | none => s
  | some entry =>
    if s.entries entry.key = some id then
      { s with entries := Function.update s.entries entry.key none }
    else s

def finishTeardown (id : ℕ) : LiveQueryManager V E :=
  (s.modify id fun entry => { entry with teardown := some .complete }).dropSlot id

/-! ### Disposal -/

/-- `entries.values()` -/
def entriesValues : List ℕ :=
  (List.range s.made).filter fun id =>
    (s.heap id).any fun entry => s.entries entry.key == some id

def pendingTeardowns : List ℕ :=
  (List.range s.made).filter fun id =>
    (s.heap id).any fun entry => entry.teardown.any (· ≠ .complete)

/-- The condition of the drain loop, and the first await of its body. -/
def drain (disposal : ℕ) : LiveQueryManager V E :=
  let phase :=
    if s.setups = [] ∧ s.entriesValues = [] ∧ s.pendingTeardowns = [] then Disposal.resolved
    else .awaitSetups s.setups
  { s with disposals := Function.update s.disposals disposal (some phase) }

def dispose (disposal : ℕ) : LiveQueryManager V E :=
  let s : LiveQueryManager V E := { s with disposed := true }
  let s := s.entriesValues.foldl (fun s id =>
    (s.clearTimer ((s.heap id).bind (·.evictionTimer))).modify id fun entry =>
      { entry with evictionTimer := none }) s
  { s with retained := [] }.drain disposal

end

/-! ### The steps -/

inductive Event (V : Type)
  | subscribe (call : ℕ) (spec : LiveQuerySpec V) (hint : KeepAliveHint)
  /-- `await entry.teardown` returns -/
  | teardownAwaited (call : ℕ)
  /-- `await joined.setup` returns -/
  | setupAwaited (call : ℕ) (throws : Bool)
  | unsubscribe (call : ℕ) (now : ℚ)
  | refresh (call : ℕ)
  /-- `live.query` resolves with its initial rows, or rejects -/
  | registers (entry : ℕ) (outcome : Option (List (Row V)))
  /-- the handler behind a failed setup -/
  | setupCaught (entry : ℕ)
  | notifies (entry : ℕ) (rows : List (Row V))
  | refreshSettles (entry : ℕ)
  /-- the teardown goes on behind the setup -/
  | teardownResumes (entry : ℕ)
  /-- `registered.unsubscribe` resolves -/
  | unsubscribeSettles (entry : ℕ)
  | timerFires (handle : ℕ)
  /-- the microtask that a listener queued -/
  | enforces
  | dispose (disposal : ℕ)
  | disposeResumes (disposal : ℕ)

def step [DecidableEq V] [DecidableEq E] (deps : LiveQueryManagerDeps V E)
    (s : LiveQueryManager V E) : Event V → Option (LiveQueryManager V E)
  | .subscribe call spec hint =>
    if s.calls call = none then some (s.subscribe deps call spec hint) else none
  | .teardownAwaited call =>
    match s.calls call with
    | some ⟨key, _, .awaitTeardown id, _, _, _⟩ =>
      if ((s.heap id).bind (·.teardown)) = some .complete then some (s.resolveEntry call key)
      else none
    | _ => none
  | .setupAwaited call throws =>
    match s.calls call with
    | some ⟨_, _, .awaitSetup id, _, _, _⟩ =>
      match (s.heap id).map (·.setup) with
      | some Setup.resolved => some (s.join id call throws)
      | some Setup.rejected => some (s.settleCall call .failed)
      | some Setup.pending | none => none
    | _ => none
  | .unsubscribe call now =>
    match s.calls call with
    | some ⟨_, _, .subscribed id, _, _, _⟩ =>
      some ((s.modifyCall call fun c => { c with phase := .unsubscribed id }).removeSubscriber deps
        id call now)
    | some ⟨_, _, .unsubscribed _, _, _, _⟩ => some s
    | _ => none
  | .refresh call =>
    match s.calls call with
    | some ⟨_, _, .subscribed id, _, _, _⟩ | some ⟨_, _, .unsubscribed id, _, _, _⟩ =>
      some (s.modify id fun entry =>
        if entry.torn then entry else { entry with refreshInFlight := true })
    | _ => none
  | .registers id outcome =>
    if ((s.heap id).map (·.setup)) = some .pending then some (s.modify id (registered deps outcome))
    else none
  | .setupCaught id =>
    if ((s.heap id).map (·.setup)) = some .rejected then some (s.dropSlot id) else none
  | .notifies id rows =>
    if ((s.heap id).map (·.registration)) = some .active then some (s.notify deps id rows) else none
  | .refreshSettles id => some (s.modify id fun entry => { entry with refreshInFlight := false })
  | .teardownResumes id =>
    match s.heap id with
    | none => none
    | some entry =>
      if entry.teardown = some .awaitingSetup ∧ entry.setup ≠ .pending then
        if entry.setup = .resolved then
          some (s.modify id fun entry =>
            { entry with registration := .unsubscribing, teardown := some .unsubscribing })
        else some (s.finishTeardown id)
      else none
  | .unsubscribeSettles id =>
    if ((s.heap id).bind (·.teardown)) = some .unsubscribing then
      some ((s.modify id fun entry => { entry with registration := .unsubscribed }).finishTeardown
        id)
    else none
  | .timerFires handle =>
    match s.timers.find? (·.1 = handle) with
    | none => none
    | some (_, id) =>
      some ({ s with timers := s.timers.filter (·.1 ≠ handle) }.onEvictionTimer id)
  | .enforces =>
    if 0 < s.enforceQueued then
      some ({ s with enforceQueued := s.enforceQueued - 1 }.enforceBudgets deps)
    else none
  | .dispose disposal =>
    if s.disposals disposal = none then some (s.dispose disposal) else none
  | .disposeResumes disposal =>
    match s.disposals disposal with
    | some (.awaitSetups snapshot) =>
      if snapshot.all (· ∉ s.setups) then
        let s := s.entriesValues.foldl tearDownEntry s
        some { s with
          disposals := Function.update s.disposals disposal
            (some (.awaitTeardowns s.pendingTeardowns)) }
      else none
    | some (.awaitTeardowns snapshot) =>
      if snapshot.all (· ∉ s.pendingTeardowns) then some (s.drain disposal) else none
    | some .resolved | none => none

end LiveQueryManager

end LiveQueries
