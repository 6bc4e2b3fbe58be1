/-
The Event lane's ingestion endpoint, from the parsed request on.

`ingest` is the handler of packages/server/src/events/route.ts after the strict framing has
accepted the body: claims, one verdict an envelope in request order, the survivors split by
stream, and one transaction that sends each stream's sub-batch to its queue.  `enqueueBatch` is
the pgmq backend's.  A payload schema, the claims resolver and the gate are the application's, so
they are parameters; a gate is a function of what it is told.
-/
import Pgxsinkit.Lib.Json
import Pgxsinkit.Lib.OrdMap

namespace Events

/-- `MAX_EVENT_PAYLOAD_BYTES` -/
def maxEventPayloadBytes : ℕ := 64 * 1024

/-- `EVENT_QUEUE_UNAVAILABLE_RETRY_AFTER_SECONDS` -/
def eventQueueUnavailableRetryAfterSeconds : ℕ := 5

structure EventEnvelope where
  stream : Text
  eventId : Text
  occurredAtUs : Text
  payload : JsValue

inductive EventAckStatus where
  | acked | refused | rejected | deferred
  deriving DecidableEq

structure EventAck where
  eventId : Text
  status : EventAckStatus
  reason : Option Text

structure StampedEvent where
  eventId : Text
  occurredAtUs : Text
  identity : List (Text × Text)
  payload : Json

structure EventQueueMessage where
  stream : Text
  events : List StampedEvent

/-! ### The registry's streams -/

/-- A registered stream.  `payload` is the schema's `safeParse`, and `none` where the entry has
no usable schema; each identity field has the path of its claim. -/
structure EventStreamEntry where
  payload : Option (JsValue → Except Text JsValue)
  identity : List (Text × List Text)

def isLower (unit : UInt16) : Bool := 0x61 ≤ unit && unit ≤ 0x7a

/-- A letter, a digit or an underscore. -/
def isNameUnit (unit : UInt16) : Bool :=
  isLower unit || (0x30 ≤ unit && unit ≤ 0x39) || unit == 0x5f

/-- `EVENT_STREAM_NAME_PATTERN` and `EVENT_STREAM_NAME_MAX_LENGTH` -/
def usableStreamName : Text → Bool
  | [] => false
  | first :: rest => isLower first && rest.all isNameUnit && rest.length + 1 ≤ 30

/-- The streams of a registry that `defineSyncRegistry` accepted. -/
structure EventStreamRegistry where
  entries : OrdMap Text EventStreamEntry
  named : ∀ name ∈ entries.keys, usableStreamName name = true

/-- The properties every object inherits from `Object.prototype`; each is an object or a
function. -/
def objectPrototype : List Text :=
  ["constructor", "__defineGetter__", "__defineSetter__", "hasOwnProperty", "__lookupGetter__",
    "__lookupSetter__", "isPrototypeOf", "propertyIsEnumerable", "toString", "valueOf",
    "__proto__", "toLocaleString"].map text

namespace EventStreamRegistry

def Registered (streams : EventStreamRegistry) (name : Text) : Prop :=
  ∃ entry, streams.entries.get? name = some entry

/-- `streams[name]`: an inherited property is found too, and has neither a schema nor an
identity. -/
def property (streams : EventStreamRegistry) (name : Text) : Option EventStreamEntry :=
  match streams.entries.get? name with
  | some entry => some entry
  | none => if name ∈ objectPrototype then some ⟨none, []⟩ else none

def eventIngestRequiresClaims (streams : EventStreamRegistry) : Bool :=
  streams.entries.entries.any fun entry => !entry.2.identity.isEmpty

end EventStreamRegistry

/-! ### Identity -/

def isPlainObject : JsValue → Bool
  | .obj _ | .date _ => true
  | _ => false

/-- An own property of a plain object; anything else has no claim to read. -/
def claimProperty (segment : Text) : JsValue → JsValue
  | .obj fields => (fields.lookup segment).getD .undefined
  | _ => .undefined

def readClaimAtPath (claims : JsValue) (claimPath : List Text) : JsValue :=
  claimPath.foldl (fun current segment => claimProperty segment current) claims

def isSpace (unit : UInt16) : Bool :=
  (0x09 ≤ unit && unit ≤ 0x0d) || (0x2000 ≤ unit && unit ≤ 0x200a) ||
    unit ∈ [0x20, 0xa0, 0x1680, 0x2028, 0x2029, 0x202f, 0x205f, 0x3000, 0xfeff]

def toStampedValue : JsValue → Option Text
  | .str units => if units.all isSpace then none else some units
  | .num digits => some digits
  | .bool value => some (text (if value then "true" else "false"))
  | _ => none

def typeName : JsValue → String
  | .undefined => "undefined"
  | .bool _ => "boolean"
  | .num _ | .nonFinite => "number"
  | .str _ => "string"
  | _ => "object"

/-- Why an identity field could not be stamped. -/
structure IdentityFailure where
  field : Text
  claimPath : List Text
  detail : Text

/-- Every declared identity field, or the first one that has no stampable claim. -/
def resolveEventIdentity (claims : JsValue) :
    List (Text × List Text) → Except IdentityFailure (List (Text × Text))
  | [] => .ok []
  | (field, claimPath) :: rest =>
    let raw := readClaimAtPath claims claimPath
    match toStampedValue raw with
    | none => .error ⟨field, claimPath,
        match raw with
        | .undefined => text "the claim is absent"
        | raw => text s!"the claim is not a stampable scalar ({typeName raw})"⟩
    | some stamped => return (field, stamped) :: (← resolveEventIdentity claims rest)

/-! ### One verdict -/

structure EventGateInput where
  stream : Text
  event : EventEnvelope
  claims : JsValue
  identity : List (Text × Text)

/-- What the gate makes of an event. -/
inductive EventGateOutcome where
  | decides (allow : Bool) (reason : Option Text)
  | throws

/-- What `createEventIngestHandler` is given. -/
structure IngestServer where
  streams : EventStreamRegistry
  eventGate : Option (EventGateInput → EventGateOutcome)

def IngestServer.gateOutcome (server : IngestServer) (input : EventGateInput) : EventGateOutcome :=
  match server.eventGate with
  | none => .decides true none
  | some gate => gate input

def streamName (stream : Text) : Text :=
  text "Event stream \"" ++ stream ++ text "\""

/-- The payload as the queue will carry it, or the reason the event is rejected. -/
def normalizePayload (stream : Text) (schema : JsValue → Except Text JsValue)
    (payload : JsValue) : Except Text Json :=
  match schema payload with
  | .error message =>
    .error (text "Payload failed the schema registered for " ++ streamName stream ++ text ": " ++
      message)
  | .ok data =>
    let unserializable := text "The payload schema's parse for " ++ streamName stream ++
      text " produced a value that cannot be serialized as JSON"
    match data.stringify with
    | .error message => .error (unserializable ++ text ": " ++ message)
    | .ok none => .error unserializable
    | .ok (some payload) =>
      if (Unicode.textEncode payload.print).length > maxEventPayloadBytes then
        .error (text "Payload exceeds the 65536-byte per-event limit")
      else .ok payload

def EventEnvelope.ack (event : EventEnvelope) (status : EventAckStatus)
    (reason : Option Text := none) : EventAck :=
  ⟨event.eventId, status, reason⟩

/-- One turn of the loop: the envelope's verdict, and the event its stream's sub-batch gets.
There is neither when the gate throws. -/
def judge (server : IngestServer) (claims : JsValue) (event : EventEnvelope) :
    Option (EventAck × Option StampedEvent) :=
  match server.streams.property event.stream with
  | none =>
    some (event.ack .deferred (text "Unknown " ++ streamName event.stream ++
      text " — this server registers none by that name"), none)
  | some entry =>
    match entry.payload with
    | none =>
      some (event.ack .rejected (streamName event.stream ++
        text " is registered without a usable payload schema"), none)
    | some schema =>
      match normalizePayload event.stream schema event.payload with
      | .error reason => some (event.ack .rejected reason, none)
      | .ok payload =>
        match resolveEventIdentity claims entry.identity with
        | .error failure =>
          some (event.ack .rejected (text "Identity field \"" ++ failure.field ++ text "\" of " ++
            streamName event.stream ++ text " could not be stamped from claim path " ++
            (Json.arr (failure.claimPath.map .str)).print ++ text ": " ++ failure.detail), none)
        | .ok identity =>
          match server.gateOutcome ⟨event.stream, event, claims, identity⟩ with
          | .throws => none
          | .decides false reason =>
            -- an empty reason counts as none
            some (event.ack .refused ((reason.filter (· ≠ [])).getD
              (text "Refused by the event gate for " ++ streamName event.stream)), none)
          | .decides true _ =>
            some (event.ack .acked, some ⟨event.eventId, event.occurredAtUs, identity, payload⟩)

/-- What the loop has so far: the acks, and each stream's sub-batch. -/
structure Tally where
  acks : List EventAck
  byStream : OrdMap Text (List StampedEvent)

def Tally.empty : Tally := ⟨[], OrdMap.empty⟩

def Tally.bucket (tally : Tally) (stream : Text) : List StampedEvent :=
  (tally.byStream.get? stream).getD []

def Tally.add (tally : Tally) (event : EventEnvelope)
    (verdict : EventAck × Option StampedEvent) : Tally :=
  ⟨tally.acks ++ [verdict.1],
    match verdict.2 with
    | none => tally.byStream
    | some stamped =>
      tally.byStream.set event.stream (tally.bucket event.stream ++ [stamped])⟩

def judgeAll (server : IngestServer) (claims : JsValue) : List EventEnvelope → Tally → Option Tally
  | [], tally => some tally
  | event :: rest, tally =>
    match judge server claims event with
    | none => none
    | some verdict => judgeAll server claims rest (tally.add event verdict)

/-! ### The queue -/

def StampedEvent.json (event : StampedEvent) : Json :=
  .obj [(text "eventId", .str event.eventId), (text "occurredAtUs", .str event.occurredAtUs),
    (text "identity", .obj (event.identity.map fun field => (field.1, .str field.2))),
    (text "payload", event.payload)]

def EventQueueMessage.json (message : EventQueueMessage) : Json :=
  .obj [(text "stream", .str message.stream),
    (text "events", .arr (message.events.map StampedEvent.json))]

/-- The messages on each queue, oldest first. -/
abbrev Queues := Text → List EventQueueMessage

def eventStreamQueueName (stream : Text) : Text := text "pgxsinkit_events_" ++ stream

/-- `pgmq.send_batch` of one stream's messages, cast to `jsonb`; `none` when the name is not
usable or `jsonb` refuses one of them. -/
def sendBatch (stream : Text) (messages : List EventQueueMessage) (queues : Queues) :
    Option Queues :=
  if usableStreamName stream && (Json.arr (messages.map EventQueueMessage.json)).storable then
    some (Function.update queues (eventStreamQueueName stream)
      (queues (eventStreamQueueName stream) ++ messages))
  else none

def groupByStream (messages : List EventQueueMessage) : OrdMap Text (List EventQueueMessage) :=
  messages.foldl (fun byStream message =>
    byStream.set message.stream ((byStream.get? message.stream).getD [] ++ [message])) OrdMap.empty

def sendAll : List (Text × List EventQueueMessage) → Queues → Option Queues
  | [], queues => some queues
  | (stream, messages) :: rest, queues => (sendBatch stream messages queues).bind (sendAll rest)

def enqueueBatch (messages : List EventQueueMessage) (queues : Queues) : Option Queues :=
  sendAll (groupByStream messages).entries queues

/-! ### The handler -/

inductive IngestResponse where
  | acks (acks : List EventAck)
  | error (status : ℕ) (message : Text) (retryAfterSeconds : Option ℕ)

/-- The answer, the queues afterwards, and the streams `onEventsEnqueued` is told about. -/
structure IngestOutcome where
  response : IngestResponse
  queues : Queues
  enqueuedStreams : Option (List Text)

/-- The handler from the parsed events on.  `up` says whether the database can run and commit the
transaction; `resolvedClaims` is what the claims resolver answered. -/
def ingest (server : IngestServer) (up : Bool) (resolvedClaims : JsValue)
    (events : List EventEnvelope) (queues : Queues) : IngestOutcome :=
  if server.streams.eventIngestRequiresClaims && !isPlainObject resolvedClaims then
    ⟨.error 401 (text "Event streams with claim-stamped identity require validated JWT claims")
      none, queues, none⟩
  else
    let claims := if isPlainObject resolvedClaims then resolvedClaims else .obj []
    match judgeAll server claims events Tally.empty with
    | none =>
      ⟨.error 500 (text "The event gate failed; nothing was enqueued") none, queues, none⟩
    | some tally =>
      let messages := tally.byStream.entries.map fun entry => ⟨entry.1, entry.2⟩
      if messages.isEmpty then ⟨.acks tally.acks, queues, none⟩
      else
        match if up then enqueueBatch messages queues else none with
        | none =>
          ⟨.error 503 (text "The event queue is unavailable; nothing was enqueued")
            (some eventQueueUnavailableRetryAfterSeconds), queues, none⟩
        | some queues => ⟨.acks tally.acks, queues, some tally.byStream.keys⟩

end Events
