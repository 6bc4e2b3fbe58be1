/-
What the ingestion endpoint answers, and when its answers can be trusted.

One envelope's verdict is `judge`'s, whatever else the request carries (`judgeAll_eq`), and a
stream's sub-batch is what its acked envelopes were stamped to (`bucket_foldl_add`).  Two things
keep the endpoint from its contract: `streams[name]` finds what every object inherits, and one
text that `jsonb` refuses turns away the whole request (`ingest_verdicts_iff`).
-/
import Pgxsinkit.Events.Ingest

namespace Events

open EventStreamRegistry

variable {server : IngestServer} {claims : JsValue} {event : EventEnvelope}
  {events : List EventEnvelope} {verdict : EventAck × Option StampedEvent}

/-! ### One verdict -/

/-- An envelope is deferred, turned down for good, or acked with the event its stream gets. -/
inductive Judged (server : IngestServer) (event : EventEnvelope) :
    EventAck × Option StampedEvent → Prop where
  | deferred (reason : Option Text) (hunknown : server.streams.property event.stream = none) :
    Judged server event (event.ack .deferred reason, none)
  | declined {entry : EventStreamEntry} (status : EventAckStatus) (reason : Option Text)
    (hknown : server.streams.property event.stream = some entry)
    (hstatus : status = .rejected ∨ status = .refused) :
    Judged server event (event.ack status reason, none)
  | acked {entry : EventStreamEntry} (identity : List (Text × Text)) (payload : Json)
    (hown : server.streams.entries.get? event.stream = some entry) :
    Judged server event
      (event.ack .acked, some ⟨event.eventId, event.occurredAtUs, identity, payload⟩)

/-- Only an own property has a schema. -/
theorem own_of_payload {streams : EventStreamRegistry} {name : Text} {entry : EventStreamEntry}
    {schema : JsValue → Except Text JsValue} (h : streams.property name = some entry)
    (hs : entry.payload = some schema) : streams.entries.get? name = some entry := by
  unfold property at h
  cases hg : streams.entries.get? name with
  | some own => simpa [hg] using h
  | none =>
    rw [hg] at h
    by_cases hp : name ∈ objectPrototype
    · simp only [hp, if_true, Option.some.injEq] at h
      subst h
      cases hs
    · simp [hp] at h

theorem judged (h : judge server claims event = some verdict) : Judged server event verdict := by
  unfold judge at h
  split at h
  case h_1 hnone =>
    obtain rfl := Option.some.inj h
    exact .deferred _ hnone
  case h_2 entry hentry =>
    split at h
    case h_1 => exact Option.some.inj h ▸ .declined _ _ hentry (.inl rfl)
    case h_2 schema hschema =>
      split at h
      case h_1 => exact Option.some.inj h ▸ .declined _ _ hentry (.inl rfl)
      case h_2 =>
        split at h
        case h_1 => exact Option.some.inj h ▸ .declined _ _ hentry (.inl rfl)
        case h_2 =>
          split at h
          case h_1 => cases h
          case h_2 => exact Option.some.inj h ▸ .declined _ _ hentry (.inr rfl)
          case h_3 => exact Option.some.inj h ▸ .acked _ _ (own_of_payload hentry hschema)

theorem Judged.eventId (h : Judged server event verdict) : verdict.1.eventId = event.eventId := by
  cases h <;> rfl

theorem Judged.registered (h : Judged server event verdict) {stamped : StampedEvent}
    (hs : verdict.2 = some stamped) : server.streams.Registered event.stream := by
  cases h with
  | acked _ _ hown => exact ⟨_, hown⟩
  | _ => cases hs

/-- A name that is only inherited is rejected, and the gate is not asked. -/
theorem judge_inherited (claims : JsValue) (hname : event.stream ∈ objectPrototype)
    (hown : ¬ server.streams.Registered event.stream) :
    ∃ reason, judge server claims event = some (event.ack .rejected reason, none) := by
  have hnone : server.streams.entries.get? event.stream = none := by
    by_contra h
    exact hown (Option.ne_none_iff_exists'.1 h)
  have hp : server.streams.property event.stream = some ⟨none, []⟩ := by
    simp [property, hnone, hname]
  exact ⟨_, by simp only [judge, hp]; rfl⟩

/-! ### All of them -/

/-- The envelopes with the verdicts they get. -/
def Verdicts (server : IngestServer) (claims : JsValue) (events : List EventEnvelope)
    (verdicts : List (EventAck × Option StampedEvent)) : Prop :=
  List.Forall₂ (fun event verdict => judge server claims event = some verdict) events verdicts

theorem verdicts_of_decides (h : ∀ event ∈ events, judge server claims event ≠ none) :
    ∃ verdicts, Verdicts server claims events verdicts := by
  induction events with
  | nil => exact ⟨[], .nil⟩
  | cons event rest ih =>
    obtain ⟨verdict, hv⟩ := Option.ne_none_iff_exists'.1 (h event (by simp))
    obtain ⟨verdicts, hvs⟩ := ih fun event he => h event (by simp [he])
    exact ⟨verdict :: verdicts, .cons hv hvs⟩

theorem judgeAll_eq {verdicts : List (EventAck × Option StampedEvent)}
    (h : Verdicts server claims events verdicts) (tally : Tally) :
    judgeAll server claims events tally =
      some ((events.zip verdicts).foldl (fun tally pair => tally.add pair.1 pair.2) tally) := by
  induction h generalizing tally with
  | nil => rfl
  | cons hv _ ih => simp only [judgeAll, hv, ih, List.zip_cons_cons, List.foldl_cons]

/-- The events of one stream, among envelopes with their verdicts. -/
def subBatch (stream : Text)
    (judged : List (EventEnvelope × (EventAck × Option StampedEvent))) : List StampedEvent :=
  judged.filterMap fun pair => if pair.1.stream = stream then pair.2.2 else none

theorem acks_foldl_add (judged : List (EventEnvelope × (EventAck × Option StampedEvent)))
    (tally : Tally) :
    (judged.foldl (fun tally pair => tally.add pair.1 pair.2) tally).acks =
      tally.acks ++ judged.map fun pair => pair.2.1 := by
  induction judged generalizing tally with
  | nil => simp
  | cons pair rest ih =>
    rw [List.foldl_cons, ih, List.map_cons, Tally.add, List.append_assoc, List.singleton_append]

theorem bucket_add (tally : Tally) (event : EventEnvelope)
    (verdict : EventAck × Option StampedEvent) (stream : Text) :
    (tally.add event verdict).bucket stream =
      tally.bucket stream ++ subBatch stream [(event, verdict)] := by
  obtain ⟨ack, stamped⟩ := verdict
  cases stamped with
  | none => simp [Tally.add, Tally.bucket, subBatch]
  | some stamped =>
    by_cases hs : event.stream = stream
    · subst hs
      simp [Tally.add, Tally.bucket, subBatch]
    · simp [Tally.add, Tally.bucket, subBatch, hs, OrdMap.get?_set_ne _ _ (Ne.symm hs)]

/-- A stream's sub-batch holds its stamped events in request order. -/
theorem bucket_foldl_add (judged : List (EventEnvelope × (EventAck × Option StampedEvent)))
    (tally : Tally) (stream : Text) :
    (judged.foldl (fun tally pair => tally.add pair.1 pair.2) tally).bucket stream =
      tally.bucket stream ++ subBatch stream judged := by
  induction judged generalizing tally with
  | nil => simp [subBatch]
  | cons pair rest ih =>
    rw [List.foldl_cons, ih, bucket_add, List.append_assoc]
    congr 1
    simp only [subBatch, List.filterMap_cons, List.filterMap_nil]
    split <;> rfl

/-- Every sub-batch is of a registered stream, and has an event. -/
def Tally.Good (server : IngestServer) (tally : Tally) : Prop :=
  ∀ stream batch, tally.byStream.get? stream = some batch →
    server.streams.Registered stream ∧ batch ≠ []

theorem Tally.Good.add {tally : Tally} (h : tally.Good server) (hv : Judged server event verdict) :
    (tally.add event verdict).Good server := by
  intro stream batch hget
  obtain ⟨ack, stamped⟩ := verdict
  cases stamped with
  | none => exact h stream batch hget
  | some stamped =>
    rw [Tally.add, OrdMap.get?_set] at hget
    split at hget
    · subst stream
      obtain rfl := Option.some.inj hget
      exact ⟨hv.registered rfl, by simp⟩
    · exact h stream batch hget

theorem Tally.Good.foldl {verdicts : List (EventAck × Option StampedEvent)}
    (hvs : Verdicts server claims events verdicts) {tally : Tally} (h : tally.Good server) :
    ((events.zip verdicts).foldl (fun tally pair => tally.add pair.1 pair.2) tally).Good server := by
  induction hvs generalizing tally with
  | nil => exact h
  | cons hv _ ih => exact ih (h.add (judged hv))

/-! ### The transaction -/

theorem eventStreamQueueName_inj {stream stream' : Text} :
    eventStreamQueueName stream = eventStreamQueueName stream' ↔ stream = stream' := by
  simp [eventStreamQueueName]

theorem groupByStream_entries {messages : List EventQueueMessage}
    (h : (messages.map (·.stream)).Nodup) :
    (groupByStream messages).entries = messages.map fun message => (message.stream, [message]) := by
  suffices hfold : ∀ (messages : List EventQueueMessage) (m : OrdMap Text (List EventQueueMessage)),
      (m.keys ++ messages.map (·.stream)).Nodup →
      (messages.foldl (fun byStream message =>
        byStream.set message.stream ((byStream.get? message.stream).getD [] ++ [message])) m).entries
        = m.entries ++ messages.map fun message => (message.stream, [message]) by
    exact hfold messages OrdMap.empty h
  intro messages
  induction messages with
  | nil => simp
  | cons message rest ih =>
    intro m hm
    have hnew : m.get? message.stream = none := by
      rw [OrdMap.get?_eq_none_iff]
      rw [List.map_cons] at hm
      exact fun hmem => (List.nodup_append.1 hm).2.2 _ hmem _ List.mem_cons_self rfl
    have hset := OrdMap.entries_set_of_none hnew [message]
    rw [List.foldl_cons, hnew, Option.getD_none, List.nil_append, ih, hset]
    · simp
    · rw [OrdMap.keys, hset]
      simpa [OrdMap.keys] using hm

/-- Sub-batches of usable streams are all sent, or refused together. -/
theorem sendAll_eq (batches : List (Text × List EventQueueMessage))
    (hnames : ∀ batch ∈ batches, usableStreamName batch.1 = true) (queues : Queues) :
    sendAll batches queues =
      if ∀ batch ∈ batches, ∀ message ∈ batch.2, message.json.storable = true then
        some fun name => queues name ++
          (batches.filter fun batch => eventStreamQueueName batch.1 = name).flatMap (·.2)
      else none := by
  induction batches generalizing queues with
  | nil => simp [sendAll]
  | cons batch rest ih =>
    obtain ⟨stream, messages⟩ := batch
    have hname : usableStreamName stream = true := hnames _ List.mem_cons_self
    have hstorable : (Json.arr (messages.map EventQueueMessage.json)).storable = true ↔
        ∀ message ∈ messages, message.json.storable = true := by
      simp [Json.storable, Json.storableItems_iff]
    unfold sendAll sendBatch
    by_cases hm : ∀ message ∈ messages, message.json.storable = true
    · rw [hname, hstorable.2 hm, Bool.and_self, if_pos rfl, Option.bind_some,
        ih fun batch hb => hnames batch (List.mem_cons_of_mem _ hb)]
      by_cases hr : ∀ batch ∈ rest, ∀ message ∈ batch.2, message.json.storable = true
      · rw [if_pos hr, if_pos (List.forall_mem_cons.2 ⟨hm, hr⟩)]
        congr 1
        funext name
        by_cases hq : eventStreamQueueName stream = name
        · subst hq
          simp
        · simp [hq, Function.update_of_ne (Ne.symm hq)]
      · rw [if_neg hr, if_neg fun h => hr (List.forall_mem_cons.1 h).2]
    · have hfalse : (Json.arr (messages.map EventQueueMessage.json)).storable = false := by
        rw [Bool.eq_false_iff]
        exact fun h => hm (hstorable.1 h)
      rw [hfalse, Bool.and_false, if_neg Bool.false_ne_true, Option.bind_none,
        if_neg fun h => hm (List.forall_mem_cons.1 h).1]

theorem usableStreamName_storable {name : Text} (h : usableStreamName name = true) :
    Json.storableUnits name = true := by
  have hunit : ∀ unit, isNameUnit unit = true →
      unit ≠ 0 ∧ Unicode.isHigh unit = false ∧ Unicode.isLow unit = false := by
    intro unit hu
    have hlow : unit.toNat ≤ 0x7a := by
      simp only [isNameUnit, isLower, Bool.or_eq_true, Bool.and_eq_true, decide_eq_true_eq,
        UInt16.le_iff_toNat_le, beq_iff_eq] at hu
      rcases hu with (⟨_, hu⟩ | ⟨_, hu⟩) | rfl
      · exact hu
      · exact hu.trans (by decide)
      · decide
    refine ⟨?_, ?_, ?_⟩
    · rintro rfl
      exact absurd hu (by decide)
    · rw [Bool.eq_false_iff]
      exact fun hh => absurd (Unicode.isHigh_iff.1 hh).1 (by omega)
    · rw [Bool.eq_false_iff]
      exact fun hl => absurd (Unicode.isLow_iff.1 hl).1 (by omega)
  have hall : ∀ unit ∈ name, isNameUnit unit = true := by
    cases name with
    | nil => cases h
    | cons first rest =>
      simp only [usableStreamName, Bool.and_eq_true, List.all_eq_true] at h
      intro unit hu
      rcases List.mem_cons.1 hu with rfl | hu
      · simp [isNameUnit, h.1.1]
      · exact h.1.2 unit hu
  clear h
  induction name with
  | nil => rfl
  | cons unit rest ih =>
    obtain ⟨hzero, hhigh, hlow⟩ := hunit unit (hall unit List.mem_cons_self)
    have hrest := ih fun unit hu => hall unit (List.mem_cons_of_mem _ hu)
    cases rest with
    | nil => simp [Json.storableUnits, hzero, hhigh, hlow]
    | cons next rest => simp [Json.storableUnits, hzero, hhigh, hlow, hrest]

/-- A message of a usable stream is refused only for one of its events. -/
theorem message_storable {stream : Text} (h : usableStreamName stream = true)
    (batch : List StampedEvent) :
    (EventQueueMessage.mk stream batch).json.storable = true ↔
      ∀ stamped ∈ batch, stamped.json.storable = true := by
  have hkeys : Json.storableUnits (text "stream") = true ∧
      Json.storableUnits (text "events") = true := by decide
  simp [EventQueueMessage.json, Json.storable, Json.storableFields, hkeys,
    usableStreamName_storable h, Json.storableItems_iff]

/-- The messages of a tally, as the handler hands them to the queue. -/
def Tally.messages (tally : Tally) : List EventQueueMessage :=
  tally.byStream.entries.map fun entry => ⟨entry.1, entry.2⟩

theorem Tally.get?_of_mem {tally : Tally} {entry : Text × List StampedEvent}
    (h : entry ∈ tally.byStream.entries) : tally.byStream.get? entry.1 = some entry.2 :=
  OrdMap.get?_eq_some_iff.2 h

/-- The transaction of a request sends each stream its sub-batch, or changes nothing because
`jsonb` refuses one of the events. -/
theorem enqueueBatch_eq {tally : Tally} (h : tally.Good server) (queues : Queues) :
    (∃ queues', enqueueBatch tally.messages queues = some queues' ∧
      (∀ stream, tally.bucket stream = [] →
        queues' (eventStreamQueueName stream) = queues (eventStreamQueueName stream)) ∧
      (∀ stream, tally.bucket stream ≠ [] → queues' (eventStreamQueueName stream) =
        queues (eventStreamQueueName stream) ++ [⟨stream, tally.bucket stream⟩]) ∧
      ∀ stream, ∀ stamped ∈ tally.bucket stream, stamped.json.storable = true) ∨
    enqueueBatch tally.messages queues = none ∧
      ∃ stream, ∃ stamped ∈ tally.bucket stream, stamped.json.storable = false := by
  have hstreams : tally.messages.map (·.stream) = tally.byStream.keys := by
    simp [Tally.messages, OrdMap.keys]
  have hgroups := groupByStream_entries (hstreams ▸ tally.byStream.keys_nodup)
  have hnames : ∀ entry ∈ tally.byStream.entries, usableStreamName entry.1 = true := by
    intro entry hentry
    obtain ⟨registered, hown⟩ := (h _ _ (Tally.get?_of_mem hentry)).1
    exact server.streams.named _ (OrdMap.mem_keys_iff.2 ⟨registered, hown⟩)
  have hbatches : (groupByStream tally.messages).entries =
      tally.byStream.entries.map fun entry => (entry.1, [⟨entry.1, entry.2⟩]) := by
    rw [hgroups, Tally.messages, List.map_map]
    rfl
  have hsend := sendAll_eq (groupByStream tally.messages).entries (by
    intro batch hbatch
    rw [hbatches] at hbatch
    obtain ⟨entry, hentry, rfl⟩ := List.mem_map.1 hbatch
    exact hnames entry hentry) queues
  -- one queue's part of what is sent is the sub-batch of its stream
  have hqueue : ∀ stream, ((groupByStream tally.messages).entries.filter fun batch =>
      eventStreamQueueName batch.1 = eventStreamQueueName stream).flatMap (·.2) =
        (tally.byStream.get? stream).toList.map fun batch => ⟨stream, batch⟩ := by
    intro stream
    have hfilter := tally.byStream.entries_filter_key stream
    rw [hbatches, List.filter_map]
    simp only [Function.comp_def, eventStreamQueueName_inj, hfilter, List.map_map]
    cases tally.byStream.get? stream <;> rfl
  by_cases hall : ∀ batch ∈ (groupByStream tally.messages).entries,
      ∀ message ∈ batch.2, message.json.storable = true
  · rw [if_pos hall] at hsend
    refine .inl ⟨_, hsend, ?_, ?_, ?_⟩
    · intro stream hempty
      cases hget : tally.byStream.get? stream with
      | none => simp [hqueue, hget]
      | some batch =>
        rw [Tally.bucket, hget] at hempty
        exact absurd hempty (h _ _ hget).2
    · intro stream hne
      cases hget : tally.byStream.get? stream with
      | none =>
        rw [Tally.bucket, hget] at hne
        exact absurd rfl hne
      | some batch => simp [hqueue, hget, Tally.bucket]
    · intro stream stamped hmem
      cases hget : tally.byStream.get? stream with
      | none =>
        rw [Tally.bucket, hget] at hmem
        exact absurd hmem List.not_mem_nil
      | some batch =>
        rw [Tally.bucket, hget] at hmem
        have hentry := OrdMap.get?_eq_some_iff.1 hget
        have hbatch : (stream, [EventQueueMessage.mk stream batch]) ∈
            (groupByStream tally.messages).entries := by
          rw [hbatches]
          exact List.mem_map.2 ⟨_, hentry, rfl⟩
        have hmessage := hall _ hbatch _ List.mem_cons_self
        exact (message_storable (hnames _ hentry) batch).1 hmessage stamped hmem
  · rw [if_neg hall] at hsend
    refine .inr ⟨hsend, ?_⟩
    push Not at hall
    obtain ⟨_, hbatch, message, hmessage, hbad⟩ := hall
    rw [hbatches] at hbatch
    obtain ⟨⟨stream, batch⟩, hentry, rfl⟩ := List.mem_map.1 hbatch
    obtain rfl := List.mem_singleton.1 hmessage
    rw [ne_eq, message_storable (hnames _ hentry)] at hbad
    push Not at hbad
    obtain ⟨stamped, hmem, hstorable⟩ := hbad
    refine ⟨stream, stamped, ?_, Bool.eq_false_iff.2 hstorable⟩
    rw [Tally.bucket, OrdMap.get?_eq_some_iff.2 hentry]
    exact hmem

/-! ### The contract -/

/-- What the loop reads: the resolved claims, or none. -/
def claimsOf (resolvedClaims : JsValue) : JsValue :=
  if isPlainObject resolvedClaims then resolvedClaims else .obj []

/-- The handler has the claims it needs. -/
def Authorized (server : IngestServer) (resolvedClaims : JsValue) : Prop :=
  server.streams.eventIngestRequiresClaims = true → isPlainObject resolvedClaims = true

/-- The gate does not throw on the envelope, if it is asked. -/
def Decides (server : IngestServer) (resolvedClaims : JsValue) (event : EventEnvelope) : Prop :=
  judge server (claimsOf resolvedClaims) event ≠ none

/-- Every check passes, and `jsonb` refuses a text the stamped event carries. -/
def Unstorable (server : IngestServer) (resolvedClaims : JsValue) (event : EventEnvelope) : Prop :=
  ∃ ack stamped, judge server (claimsOf resolvedClaims) event = some (ack, some stamped) ∧
    stamped.json.storable = false

/-- The verdict at one position of the answer; there is none in a failed one. -/
def IngestOutcome.verdictAt (outcome : IngestOutcome) (i : ℕ) : Option EventAck :=
  match outcome.response with
  | .acks acks => acks[i]?
  | .error .. => none

/-- The ids and times of one stream's acked envelopes, in request order. -/
def ackedOf (stream : Text) (events : List EventEnvelope) (acks : List EventAck) :
    List (Text × Text) :=
  (events.zip acks).filterMap fun pair =>
    if pair.1.stream = stream ∧ pair.2.status = .acked then
      some (pair.1.eventId, pair.1.occurredAtUs)
    else none

/-- The endpoint keeps its contract on one request. -/
structure VerdictsHold (server : IngestServer) (up : Bool) (resolvedClaims : JsValue)
    (events : List EventEnvelope) (queues : Queues) : Prop where
  /-- an answer has one verdict an envelope, in request order -/
  perEnvelope : ∀ acks, (ingest server up resolvedClaims events queues).response = .acks acks →
    acks.map (·.eventId) = events.map (·.eventId)
  /-- a stream's queue receives its acked events, in request order, and nothing else -/
  enqueued : ∀ acks, (ingest server up resolvedClaims events queues).response = .acks acks →
    ∀ stream, ∃ sent, (ingest server up resolvedClaims events queues).queues
        (eventStreamQueueName stream) = queues (eventStreamQueueName stream) ++ sent ∧
      (∀ message ∈ sent, message.stream = stream) ∧
      (sent.flatMap fun message => message.events.map fun stamped =>
        (stamped.eventId, stamped.occurredAtUs)) = ackedOf stream events acks
  /-- the deferred envelopes are those of unregistered streams -/
  deferred : ∀ acks, (ingest server up resolvedClaims events queues).response = .acks acks →
    ∀ pair ∈ events.zip acks,
      pair.2.status = .deferred ↔ ¬ server.streams.Registered pair.1.stream
  /-- with the database up and a gate that decides, an envelope gets the verdict it gets alone -/
  alone : up = true → (∀ event ∈ events, Decides server resolvedClaims event) →
    ∀ i event, events[i]? = some event →
      (ingest server up resolvedClaims events queues).verdictAt i =
        (ingest server up resolvedClaims [event] queues).verdictAt 0
  /-- a failed request enqueues nothing -/
  failed : (∀ acks, (ingest server up resolvedClaims events queues).response ≠ .acks acks) →
    (ingest server up resolvedClaims events queues).queues = queues

variable {up : Bool} {resolvedClaims : JsValue} {queues : Queues}
  {verdicts : List (EventAck × Option StampedEvent)}

theorem ingest_authorized (h : Authorized server resolvedClaims) :
    ingest server up resolvedClaims events queues =
      match judgeAll server (claimsOf resolvedClaims) events Tally.empty with
      | none =>
        ⟨.error 500 (text "The event gate failed; nothing was enqueued") none, queues, none⟩
      | some tally =>
        if tally.messages.isEmpty then ⟨.acks tally.acks, queues, none⟩
        else
          match if up then enqueueBatch tally.messages queues else none with
          | none =>
            ⟨.error 503 (text "The event queue is unavailable; nothing was enqueued")
              (some eventQueueUnavailableRetryAfterSeconds), queues, none⟩
          | some queues => ⟨.acks tally.acks, queues, some tally.byStream.keys⟩ := by
  have hif : ¬ (server.streams.eventIngestRequiresClaims && !isPlainObject resolvedClaims) = true := by
    simpa [Authorized] using h
  rw [ingest, if_neg hif]
  rfl

theorem mem_subBatch (hvs : Verdicts server claims events verdicts) {stream : Text}
    {stamped : StampedEvent} :
    stamped ∈ subBatch stream (events.zip verdicts) ↔
      ∃ event ∈ events, event.stream = stream ∧
        ∃ ack, judge server claims event = some (ack, some stamped) := by
  induction hvs with
  | nil => simp [subBatch]
  | @cons event verdict rest verdicts hv _ ih =>
    obtain ⟨ack, stamped'⟩ := verdict
    have hcons : subBatch stream ((event, (ack, stamped')) :: rest.zip verdicts) =
        (if event.stream = stream then stamped' else none).toList ++
          subBatch stream (rest.zip verdicts) := by
      unfold subBatch
      rw [List.filterMap_cons]
      cases (if event.stream = stream then stamped' else none) <;> rfl
    rw [List.zip_cons_cons, hcons, List.mem_append, ih]
    by_cases hs : event.stream = stream
    · simp only [hs, if_true, Option.mem_toList, List.mem_cons, exists_eq_or_imp, true_and, hv,
        Option.some.injEq, Prod.mk.injEq, exists_eq_left', Option.mem_def]
    · simp [hs]

/-- A request that is not turned away is answered with its verdicts, and each stream's queue has
its sub-batch; or the transaction fails, and the queues are as they were. -/
theorem ingest_cases (up : Bool) (queues : Queues) (hauth : Authorized server resolvedClaims)
    (hvs : Verdicts server (claimsOf resolvedClaims) events verdicts) :
    ((∀ event ∈ events, ¬ Unstorable server resolvedClaims event) ∧
      ∃ queues' streams, ingest server up resolvedClaims events queues =
          ⟨.acks (verdicts.map (·.1)), queues', streams⟩ ∧
        ∀ stream, ∃ sent, queues' (eventStreamQueueName stream) =
            queues (eventStreamQueueName stream) ++ sent ∧
          (∀ message ∈ sent, message.stream = stream) ∧
          sent.flatMap (·.events) = subBatch stream (events.zip verdicts)) ∨
    ((up = false ∨ ∃ event ∈ events, Unstorable server resolvedClaims event) ∧
      ∃ status message retry, ingest server up resolvedClaims events queues =
        ⟨.error status message retry, queues, none⟩) := by
  set tally := (events.zip verdicts).foldl (fun tally pair => tally.add pair.1 pair.2) Tally.empty
    with htally
  have hgood : tally.Good server := Tally.Good.foldl hvs fun stream batch h => by cases h
  have hacks : tally.acks = verdicts.map (·.1) := by
    have hzip : (events.zip verdicts).map (·.2) = verdicts :=
      List.map_snd_zip (le_of_eq hvs.length_eq.symm)
    rw [htally, acks_foldl_add]
    conv_rhs => rw [← hzip, List.map_map]
    rfl
  have hbucket : ∀ stream, tally.bucket stream = subBatch stream (events.zip verdicts) := by
    intro stream
    rw [htally, bucket_foldl_add]
    rfl
  have hstored : (∀ stream, ∀ stamped ∈ tally.bucket stream, stamped.json.storable = true) →
      ∀ event ∈ events, ¬ Unstorable server resolvedClaims event := by
    rintro hall event he ⟨ack, stamped, hj, hbad⟩
    have hmem := (mem_subBatch hvs).2 ⟨event, he, rfl, ack, hj⟩
    rw [← hbucket] at hmem
    exact absurd (hall _ stamped hmem) (by simp [hbad])
  rw [ingest_authorized hauth, judgeAll_eq hvs]
  dsimp only
  rw [← htally]
  by_cases hempty : tally.messages.isEmpty = true
  · -- nothing was acked, and no transaction is opened
    have hnone : ∀ stream, tally.bucket stream = [] := by
      intro stream
      have hentries : tally.byStream.entries = [] := by simpa [Tally.messages] using hempty
      simp [Tally.bucket, OrdMap.get?, hentries]
    rw [if_pos hempty, hacks]
    refine .inl ⟨hstored fun stream stamped hmem => ?_, queues, none, rfl, fun stream => ?_⟩
    · rw [hnone] at hmem
      cases hmem
    · exact ⟨[], by simp, by simp, by rw [← hbucket, hnone]; rfl⟩
  rw [if_neg hempty]
  cases up with
  | false => exact .inr ⟨.inl rfl, _, _, _, rfl⟩
  | true =>
    rcases enqueueBatch_eq hgood queues with
      ⟨queues', hsend, hunchanged, hsent, hall⟩ | ⟨hsend, stream, stamped, hmem, hbad⟩
    · rw [if_pos rfl, hsend, hacks]
      refine .inl ⟨hstored hall, queues', _, rfl, fun stream => ?_⟩
      rw [← hbucket]
      by_cases hb : tally.bucket stream = []
      · exact ⟨[], by simp [hunchanged stream hb], by simp, by rw [hb]; rfl⟩
      · exact ⟨[⟨stream, tally.bucket stream⟩], hsent stream hb, by simp, by simp⟩
    · rw [if_pos rfl, hsend]
      rw [hbucket, mem_subBatch hvs] at hmem
      obtain ⟨event, he, -, ack, hj⟩ := hmem
      exact .inr ⟨.inr ⟨event, he, ack, stamped, hj, hbad⟩, _, _, _, rfl⟩

theorem Verdicts.eventIds (hvs : Verdicts server claims events verdicts) :
    (verdicts.map (·.1)).map (·.eventId) = events.map (·.eventId) := by
  induction hvs with
  | nil => rfl
  | cons hv _ ih => rw [List.map_cons, List.map_cons, List.map_cons, ih, (judged hv).eventId]

/-- One verdict of the answer is its own envelope's. -/
theorem verdict_of_zip (hvs : Verdicts server claims events verdicts)
    {pair : EventEnvelope × EventAck} (h : pair ∈ events.zip (verdicts.map (·.1))) :
    ∃ stamped, judge server claims pair.1 = some (pair.2, stamped) := by
  induction hvs with
  | nil => cases h
  | @cons event verdict rest verdicts hv _ ih =>
    rcases List.mem_cons.1 h with rfl | h
    · exact ⟨verdict.2, hv⟩
    · exact ih h

/-- Alone, an envelope gets its verdict, unless `jsonb` refuses it. -/
theorem ingest_alone (queues : Queues) (hauth : Authorized server resolvedClaims)
    (hv : judge server (claimsOf resolvedClaims) event = some verdict) :
    (ingest server true resolvedClaims [event] queues).verdictAt 0 = some verdict.1 ∧
        ¬ Unstorable server resolvedClaims event ∨
      (ingest server true resolvedClaims [event] queues).verdictAt 0 = none ∧
        Unstorable server resolvedClaims event := by
  have hone : Verdicts server (claimsOf resolvedClaims) [event] [verdict] := .cons hv .nil
  rcases ingest_cases true queues hauth hone with
    ⟨hall, _, _, hout, -⟩ | ⟨hbad, _, _, _, hout⟩
  · exact .inl ⟨by rw [hout]; rfl, hall event List.mem_cons_self⟩
  · rcases hbad with hup | ⟨e, he, hbad⟩
    · cases hup
    · obtain rfl := List.mem_singleton.1 he
      exact .inr ⟨by rw [hout]; rfl, hbad⟩

/-! ### When the contract is kept -/

/-- One envelope that `jsonb` refuses costs every other one its verdict. -/
theorem VerdictsHold.share (h : ∀ up queues, VerdictsHold server up resolvedClaims events queues)
    (hauth : Authorized server resolvedClaims)
    (hdecides : ∀ event ∈ events, Decides server resolvedClaims event)
    (he : event ∈ events) (hbad : Unstorable server resolvedClaims event)
    {other : EventEnvelope} (ho : other ∈ events) : Unstorable server resolvedClaims other := by
  obtain ⟨verdicts, hvs⟩ := verdicts_of_decides hdecides
  obtain ⟨i, hi⟩ := List.getElem?_of_mem ho
  have halone := (h true fun _ => []).alone rfl hdecides i other hi
  rcases ingest_cases true (fun _ => []) hauth hvs with
    ⟨hall, -⟩ | ⟨-, _, _, _, hout⟩
  · exact absurd hbad (hall event he)
  · obtain ⟨verdict, hv⟩ := Option.ne_none_iff_exists'.1 (hdecides other ho)
    rw [hout] at halone
    rcases ingest_alone (fun _ => []) hauth hv with ⟨hsome, -⟩ | ⟨-, hother⟩
    · rw [hsome] at halone
      cases halone
    · exact hother

/-- A name that is only inherited is rejected, where the contract has it deferred. -/
theorem VerdictsHold.registered
    (h : ∀ up queues, VerdictsHold server up resolvedClaims events queues)
    (hauth : Authorized server resolvedClaims)
    (hdecides : ∀ event ∈ events, Decides server resolvedClaims event)
    (he : event ∈ events) (hname : event.stream ∈ objectPrototype) :
    server.streams.Registered event.stream := by
  by_contra hown
  obtain ⟨verdicts, hvs⟩ := verdicts_of_decides hdecides
  obtain ⟨reason, hj⟩ := judge_inherited (claimsOf resolvedClaims) hname hown
  have hnot : ¬ Unstorable server resolvedClaims event := by
    rintro ⟨ack, stamped, hj', -⟩
    rw [hj] at hj'
    cases hj'
  rcases ingest_cases true (fun _ => []) hauth hvs with
    ⟨-, _, _, hout, -⟩ | ⟨hup | ⟨other, ho, hbad⟩, -⟩
  · obtain ⟨i, hi⟩ := List.getElem?_of_mem he
    have hlen : i < verdicts.length := by
      rw [← hvs.length_eq]
      exact (List.getElem?_eq_some_iff.1 hi).1
    have hpair : (event, verdicts[i].1) ∈ events.zip (verdicts.map (·.1)) := by
      refine List.mem_of_getElem? (i := i) ?_
      simp [List.getElem?_zip_eq_some, hi, List.getElem?_eq_getElem hlen]
    obtain ⟨stamped, hj'⟩ := verdict_of_zip hvs hpair
    rw [hj] at hj'
    have hack := (Prod.mk.inj (Option.some.inj hj')).1
    have hdef := (h true fun _ => []).deferred _ (by rw [hout]) _ hpair
    rw [← hack] at hdef
    exact absurd (hdef.2 hown) (by simp [EventEnvelope.ack])
  · cases hup
  · exact hnot (VerdictsHold.share h hauth hdecides ho hbad he)

end Events
