/-
The client's Event lane: appends to the Outbox, and the passes that drain it.

`createEventLaneRuntime` of packages/client/src/event-lane.ts as a machine.  A statement of the
local store, a request and an answer are one event each, so a crash (`restart`) or a failing
statement (`passFails`) can fall between any two of them.  Clock readings come with the events and
nothing orders them.  `history` is no state of the lane: it is what an observer of its rows and
requests has seen, in order.
-/
import Pgxsinkit.Events.Ingest
import Pgxsinkit.Lib.Runs

namespace Events

/-- `MAX_EVENTS_PER_BATCH` -/
def maxEventsPerBatch : ℕ := 1000

/-- `MAX_EVENT_REQUEST_BYTES` -/
def maxEventRequestBytes : ℕ := 4 * 1024 * 1024

/-- `DEFAULT_EVENT_BATCH_SIZE` -/
def defaultEventBatchSize : ℕ := 200

/-- A row of the Outbox table; its times are in microseconds. -/
structure OutboxRow where
  seq : ℕ
  eventId : Text
  stream : Text
  occurredAtUs : ℤ
  payload : Json
  enqueuedAtUs : ℤ
  attemptCount : ℕ
  nextRetryAtUs : Option ℤ
  lastReason : Option Text
  ackedAtUs : Option ℤ

/-- `Math.round` -/
def roundHalfUp (x : ℚ) : ℤ := (2 * x.num + x.den) / (2 * x.den)

theorem roundHalfUp_eq_floor (x : ℚ) : roundHalfUp x = ⌊x + 1 / 2⌋ := by
  have hden : (x.den : ℚ) ≠ 0 := by exact_mod_cast x.den_nz
  have hx : x + 1 / 2 = ((2 * x.num + x.den : ℤ) : ℚ) / ((2 * x.den : ℕ) : ℚ) := by
    have h := Rat.num_div_den x
    field_simp
    push_cast
    nth_rewrite 1 [← h]
    field_simp
  rw [hx, Rat.floor_intCast_div_natCast, roundHalfUp]
  push_cast
  rfl

/-- `events.ackedRetentionMs` as `validateEventLaneOptions` accepts it, whole or not. -/
structure Retention where
  ms : ℚ
  nonneg : 0 ≤ ms

def Retention.retainsAcked (retention : Retention) : Bool := 0 < retention.ms

structure EventBackoff where
  baseMs : ℚ
  ceilingMs : ℚ

/-- `computeEventBackoffMs`; `random` is the answer of `Math.random`. -/
def computeEventBackoffMs (attempt : ℕ) (backoff : EventBackoff) (random : ℚ) : ℤ :=
  let ceiling := min (backoff.baseMs * 2 ^ (attempt - 1)) backoff.ceilingMs
  roundHalfUp (ceiling / 2 + random * (ceiling / 2))

/-- The `events` tuning but for the retention, and the registry's streams. -/
structure LaneOptions where
  streams : EventStreamRegistry
  batchSize : Option ℕ
  /-- the per-stream batch size, where one is set -/
  streamCap : Text → Option ℕ
  /-- the backoff of a stream, and that of the whole lane -/
  backoffFor : Option Text → EventBackoff

def LaneOptions.batchLimit (options : LaneOptions) : ℕ :=
  max 1 (min (options.batchSize.getD defaultEventBatchSize) maxEventsPerBatch)

/-- The ids of a verdict list, as its settlement sorts them. -/
structure Settlement where
  deletable : List Text
  stampable : List Text
  deferred : List Text

/-- Where a flush pass stands; `deferred` is `deferredThisPass`. -/
inductive PassStage where
  /-- the sweep at the top, then the backoff gate -/
  | sweeping
  | gating
  | reading (deferred : List Text)
  /-- about to send the batch, the second time after the token was refreshed -/
  | sending (batch : List OutboxRow) (refreshed : Bool) (deferred : List Text)
  | awaiting (batch : List OutboxRow) (refreshed : Bool) (deferred : List Text)
  /-- the loop over the acks -/
  | settling (batch : List OutboxRow) (acks : List EventAck) (sorted : Settlement)
    (deferred : List Text)
  | deleting (sorted : Settlement) (deferred : List Text)
  | stamping (sorted : Settlement) (deferred : List Text)

/-- What an observer of the lane sees. -/
inductive Observation where
  | appended (row : OutboxRow)
  | posted (batch : List OutboxRow)
  /-- the verdicts that answered a posted batch -/
  | received (batch : List OutboxRow) (acks : List EventAck)
  /-- the statement that settles these ids' verdicts went through -/
  | settled (ids : List Text)
  | stamped (ids : List Text) (atUs : ℤ)
  /-- the sweep removed the row under the retention in force -/
  | swept (row : OutboxRow) (nowUs : ℤ) (retention : Retention)

structure Lane where
  outbox : List OutboxRow
  nextSeq : ℕ
  /-- the answers of `randomUUID` so far, none of them given twice -/
  issued : List Text
  retention : Retention
  /-- the sweep at construction has not run -/
  sweepPending : Bool
  /-- calls of `flush` that wait on the chain -/
  queued : ℕ
  pass : Option PassStage
  batchAttempt : ℕ
  batchRetryAtMs : ℤ
  history : List Observation

def Lane.start (retention : Retention) : Lane :=
  ⟨[], 1, [], retention, true, 0, none, 0, 0, []⟩

/-- What can happen to the lane.  `nowMs` is what the clock says then. -/
inductive LaneEvent where
  | append (eventId : Text) (nowMs : ℤ) (stream : Text) (payload : JsValue)
  | initialSweep (nowMs : ℤ)
  | initialSweepFails
  | flush
  | startPass
  | sweep (nowMs : ℤ)
  | sweepFails
  | gate (nowMs : ℤ)
  | read (nowMs : ℤ)
  | send
  | authFails
  | requestFails (nowMs : ℤ) (random : ℚ) (retryAfterMs : Option ℤ)
  | receive (acks : List EventAck)
  | settleNext (nowMs : ℤ) (random : ℚ)
  | deleteSettled
  | stampSettled (nowMs : ℤ)
  | passFails
  | restart (retention : Retention)

/-- `nowUs` -/
def microseconds (nowMs : ℤ) : ℤ := nowMs * 1000

namespace Lane

def observe (lane : Lane) (seen : List Observation) : Lane :=
  { lane with history := lane.history ++ seen }

/-! ### Append -/

/-- The row `appendEvent` inserts, if the payload passes its checks and `jsonb` takes it. -/
def newRow (options : LaneOptions) (lane : Lane) (eventId : Text) (nowMs : ℤ) (stream : Text)
    (payload : JsValue) : Option OutboxRow := do
  let entry ← options.streams.property stream
  let schema ← entry.payload
  let _ ← (schema payload).toOption
  let payloadJson ← (payload.stringify).toOption.join
  if (Unicode.textEncode payloadJson.print).length ≤ maxEventPayloadBytes ∧
      payloadJson.storable then
    some ⟨lane.nextSeq, eventId, stream, microseconds nowMs, payloadJson, microseconds nowMs, 0,
      none, none, none⟩
  else none

def appendEvent (options : LaneOptions) (lane : Lane) (eventId : Text) (nowMs : ℤ) (stream : Text)
    (payload : JsValue) : Option Lane :=
  if eventId ∈ lane.issued then none
  else (newRow options lane eventId nowMs stream payload).map fun row =>
    { lane with
      outbox := lane.outbox ++ [row]
      nextSeq := lane.nextSeq + 1
      issued := eventId :: lane.issued }.observe [.appended row]

/-! ### The statements of a pass -/

/-- A row the cutoff of `sweepAckedLedger` reaches. -/
def reached (retention : Retention) (nowMs : ℤ) (row : OutboxRow) : Bool :=
  row.ackedAtUs.any fun atUs =>
    atUs ≤ microseconds nowMs - roundHalfUp retention.ms * 1000

def sweepAckedLedger (lane : Lane) (nowMs : ℤ) : Lane :=
  let old := reached lane.retention nowMs
  { lane with outbox := lane.outbox.filter fun row => !old row }.observe
    ((lane.outbox.filter old).map fun row =>
      .swept row (microseconds nowMs) lane.retention)

def eligibleNow (nowMs : ℤ) (row : OutboxRow) : Bool :=
  row.ackedAtUs.isNone && row.nextRetryAtUs.all (· ≤ microseconds nowMs)

/-- Each row with its rank within its stream, after the rows `before`. -/
def rankedEligible (before : List OutboxRow) : List OutboxRow → List (OutboxRow × ℕ)
  | [] => []
  | row :: rest =>
    (row, (before.filter fun other => other.stream = row.stream).length + 1) ::
      rankedEligible (before ++ [row]) rest

/-- The Outbox is in `seq` order, so the rows are too. -/
def readEligibleRows (options : LaneOptions) (lane : Lane) (nowMs : ℤ) : List OutboxRow :=
  (((rankedEligible [] (lane.outbox.filter (eligibleNow nowMs))).filter fun entry =>
    (options.streamCap entry.1.stream).all (entry.2 ≤ ·)).map Prod.fst).take options.batchLimit

/-- The envelope of a row on the wire. -/
def envelopeJson (row : OutboxRow) : Json :=
  .obj [(text "stream", .str row.stream), (text "eventId", .str row.eventId),
    (text "occurredAtUs", .str (text (toString row.occurredAtUs))), (text "payload", row.payload)]

/-- The bytes a row adds to the request of a batch; all but the first cost a comma. -/
def envelopeBytes (batch : List OutboxRow) (row : OutboxRow) : ℕ :=
  (Unicode.textEncode (envelopeJson row).print).length + if batch.isEmpty then 0 else 1

/-- The loop of `assembleBatch`: the batch so far, and the bytes of its request. -/
def assembleBatch (options : LaneOptions) (batch : List OutboxRow) (requestBytes : ℕ) :
    List OutboxRow → List OutboxRow
  | [] => batch
  | row :: rest =>
    if options.batchLimit ≤ batch.length then batch
    else if (options.streamCap row.stream).any
        (· ≤ (batch.filter fun other => other.stream = row.stream).length) then
      assembleBatch options batch requestBytes rest
    else if batch.isEmpty = false ∧
        maxEventRequestBytes < requestBytes + envelopeBytes batch row then batch
    else assembleBatch options (batch ++ [row]) (requestBytes + envelopeBytes batch row) rest

/-- The bytes of a request without events. -/
def frameBytes : ℕ := (Json.print (.obj [(text "events", .arr [])])).length

/-- `deferEvent`: park one row; the other columns stay. -/
def deferEvent (options : LaneOptions) (lane : Lane) (nowMs : ℤ) (random : ℚ) (posted : OutboxRow)
    (reason : Option Text) : Lane :=
  let attempt := posted.attemptCount + 1
  let delayMs := computeEventBackoffMs attempt (options.backoffFor (some posted.stream)) random
  let outbox := lane.outbox.map fun row =>
    if row.eventId = posted.eventId then
      { row with
        attemptCount := attempt
        nextRetryAtUs := some (microseconds nowMs + delayMs * 1000)
        lastReason := reason }
    else row
  { lane with outbox }

def deleteEvents (lane : Lane) (eventIds : List Text) : Lane :=
  let outbox := lane.outbox.filter fun row => row.eventId ∉ eventIds
  { lane with outbox }.observe [.settled eventIds]

def stampAcked (lane : Lane) (eventIds : List Text) (nowMs : ℤ) : Lane :=
  let outbox := lane.outbox.map fun row =>
    if row.eventId ∈ eventIds then { row with ackedAtUs := some (microseconds nowMs) } else row
  { lane with outbox }.observe [.stamped eventIds (microseconds nowMs), .settled eventIds]

/-! ### The machine -/

/-- One ack of the loop in `settleAcks`: where its id goes, and the row to park if it is
deferred. -/
def sortAck (retention : Retention) (batch : List OutboxRow) (ack : EventAck)
    (sorted : Settlement) : Settlement × Option OutboxRow :=
  match batch.find? (·.eventId = ack.eventId) with
  | none => (sorted, none)
  | some row =>
    match ack.status with
    | .deferred => ({ sorted with deferred := sorted.deferred ++ [ack.eventId] }, some row)
    | .acked =>
      if retention.retainsAcked then
        ({ sorted with stampable := sorted.stampable ++ [ack.eventId] }, none)
      else ({ sorted with deletable := sorted.deletable ++ [ack.eventId] }, none)
    | .refused | .rejected =>
      ({ sorted with deletable := sorted.deletable ++ [ack.eventId] }, none)

def enter (lane : Lane) (stage : PassStage) : Lane := { lane with pass := some stage }

def done (lane : Lane) : Lane := { lane with pass := none }

/-- What the running pass does with an event. -/
def stepPass (options : LaneOptions) (lane : Lane) : PassStage → LaneEvent → Option Lane
  | .sweeping, .sweep nowMs => some ((lane.sweepAckedLedger nowMs).enter .gating)
  | .sweeping, .sweepFails => some (lane.enter .gating)
  | .gating, .gate nowMs =>
    if 0 < lane.batchAttempt ∧ nowMs < lane.batchRetryAtMs then some lane.done
    else some (lane.enter (.reading []))
  | .reading deferred, .read nowMs =>
    let rows := (readEligibleRows options lane nowMs).filter (·.eventId ∉ deferred)
    let batch := assembleBatch options [] frameBytes rows
    if batch.isEmpty then some lane.done else some (lane.enter (.sending batch false deferred))
  | .sending batch refreshed deferred, .send =>
    some ((lane.enter (.awaiting batch refreshed deferred)).observe [.posted batch])
  | .awaiting batch false deferred, .authFails => some (lane.enter (.sending batch true deferred))
  -- the token, the connection or the answer: each ends the pass with the lane in backoff
  | .sending _ _ _, .requestFails nowMs random retryAfterMs
  | .awaiting _ _ _, .requestFails nowMs random retryAfterMs =>
    let attempt := lane.batchAttempt + 1
    let backoffMs := computeEventBackoffMs attempt (options.backoffFor none) random
    some { lane.done with
      batchAttempt := attempt
      batchRetryAtMs := nowMs + max backoffMs (retryAfterMs.getD 0) }
  | .awaiting batch _ deferred, .receive acks =>
    some ((lane.enter (.settling batch acks ⟨[], [], []⟩ deferred)).observe [.received batch acks])
  | .settling batch (ack :: acks) sorted deferred, .settleNext nowMs random =>
    let (sorted, parked) := sortAck lane.retention batch ack sorted
    let lane := match parked with
      | none => lane
      | some row => deferEvent options lane nowMs random row ack.reason
    some (lane.enter (.settling batch acks sorted deferred))
  | .settling _ [] sorted deferred, .settleNext _ _ => some (lane.enter (.deleting sorted deferred))
  | .deleting sorted deferred, .deleteSettled =>
    some ((if sorted.deletable.isEmpty then lane else lane.deleteEvents sorted.deletable).enter
      (.stamping sorted deferred))
  | .stamping sorted deferred, .stampSettled nowMs =>
    let lane := if sorted.stampable.isEmpty then lane else lane.stampAcked sorted.stampable nowMs
    let lane := { lane with batchAttempt := 0, batchRetryAtMs := 0 }
    if sorted.deletable.length + sorted.stampable.length + sorted.deferred.length = 0 then
      some lane.done
    else some (lane.enter (.reading (deferred ++ sorted.deferred)))
  | _, .passFails => some lane.done
  | _, _ => none

def step (options : LaneOptions) (lane : Lane) : LaneEvent → Option Lane
  | .append eventId nowMs stream payload =>
    lane.appendEvent options eventId nowMs stream payload
  | .initialSweep nowMs =>
    if lane.sweepPending then
      some { lane.sweepAckedLedger nowMs with sweepPending := false }
    else none
  | .initialSweepFails =>
    if lane.sweepPending then some { lane with sweepPending := false } else none
  | .flush => some { lane with queued := lane.queued + 1 }
  | .startPass =>
    if lane.pass.isNone ∧ 0 < lane.queued then
      let lane := { lane with queued := lane.queued - 1 }
      if options.streams.entries.entries.isEmpty then some lane
      else if lane.retention.retainsAcked then some (lane.enter .sweeping)
      else some (lane.enter .gating)
    else none
  | .restart retention =>
    some { lane with
      retention, sweepPending := true, queued := 0, pass := none, batchAttempt := 0,
      batchRetryAtMs := 0 }
  | event => lane.pass.bind fun stage => stepPass options lane stage event

end Lane

end Events
