/-
The stream reader.

`readShapeStreamWith` and `createTokenRecovery` of packages/client/src/circuits/stream-source.ts.  The delivery and the
request it has sent ahead are two processes of one reader, and a stretch of code from one await to the next is one
step.  The environment settles what they await, closes the subscription and aborts the caller's signal; how long a
backoff lasts is left to it.  `history` is what a caller and a server see of the reader.
-/
import Pgxsinkit.Circuits.LongPoll
import Pgxsinkit.Lib.History

namespace Circuits.StreamSource

open Json

variable {E : Type}

def STREAM_START : Text := text "-1"

structure StreamSourceOptions (E : Type) where
  url : Text
  offset : Option Text
  live : Option Bool
  /-- `onTokenRejected` is there -/
  recovers : Bool
  /-- `readRequestUrl(options.url, ·)` -/
  requestUrl : ReadPosition → Text
  jsonArray : Text → Option (List E)

def StreamSourceOptions.isLive (options : StreamSourceOptions E) : Bool := options.live.getD true

/-- The position of the first request. -/
def StreamSourceOptions.start (options : StreamSourceOptions E) : ReadPosition :=
  ⟨options.offset.getD STREAM_START, none, false⟩

structure StreamBatch (E : Type) where
  envelopes : List E
  offset : Text
  upToDate : Bool
  deriving DecidableEq

def ReadResponse.batch (response : ReadResponse E) : StreamBatch E :=
  ⟨response.envelopes, response.offset, response.upToDate⟩

/-- The response that ends the read. -/
def StreamSourceOptions.isLast (options : StreamSourceOptions E) (response : ReadResponse E) : Bool :=
  response.closed || (!options.isLive && response.upToDate)

/-- The position of the request after a response. -/
def StreamSourceOptions.after (options : StreamSourceOptions E) (position : ReadPosition) (response : ReadResponse E) :
    ReadPosition :=
  ⟨response.offset, response.cursor.or position.cursor, options.isLive && response.upToDate⟩

/-- What is thrown. -/
inductive Thrown
  | streamRead (error : StreamReadError)
  | error (message : Text)
  /-- no `Error`, with its `String`, `none` when that throws -/
  | value (string : Option Text)
  deriving DecidableEq

/-- `error instanceof Error ? error : new Error(String(error))` -/
def Thrown.toError : Thrown → Option Thrown
  | .value string => string.map .error
  | thrown => some thrown

/-! ### A request -/

/-- Where a request waits. -/
inductive RequestPoint
  /-- for the token thunk -/
  | token
  | sending
  /-- for the body of an answer that is `ok` -/
  | reading (response : Response)
  /-- for `body.cancel()` -/
  | cancelling
  | waiting
  /-- for the body of an answer that is not retried -/
  | failing (response : Response)
  /-- for `onTokenRejected` -/
  | reminting (failure : StreamReadError)
  deriving DecidableEq

structure Request where
  position : ReadPosition
  /-- of `createTokenRecovery` -/
  recovering : Bool
  point : RequestPoint

inductive RequestState (E : Type)
  | running (request : Request)
  | settled (outcome : Except Thrown (Option (ReadResponse E)))

/-- `createTokenRecovery`: the handler asks for a fresh token, or the error stands. -/
def asksForToken (recovering : Bool) (error : StreamReadError) : Bool :=
  (error.status = some 401 || error.status = some 403) && !recovering

def bearer (token : Text) : Text := text "Bearer " ++ token

/-! ### The reader -/

/-- Where the delivery is. -/
inductive Stage (E : Type)
  /-- the first response is awaited -/
  | opening
  /-- the call has resolved, and the delivery is one reaction behind -/
  | opened (first : ReadResponse E)
  | rejected (error : Thrown)
  /-- `onBatch` is awaited, and whether a request was sent ahead -/
  | applying (response : ReadResponse E) (ahead : Bool)
  /-- the response that was asked for ahead is awaited -/
  | awaiting
  /-- `deliver` has settled, and the report is one reaction behind -/
  | returning (error : Option Thrown)
  | finished

inductive Observation (E : Type)
  /-- a request begins -/
  | asked (position : ReadPosition)
  /-- the caller gives a token -/
  | minted (token : Text)
  /-- the request goes out -/
  | sent (authorization : Text)
  /-- with 401 or 403 -/
  | refused
  | answered (response : ReadResponse E)
  | handed (batch : StreamBatch E)
  /-- `onBatch` has, or has thrown -/
  | settled
  | closed
  /-- the caller's signal aborts -/
  | signalled
  | ended (error : Option Thrown)
  deriving DecidableEq

structure Reader (E : Type) where
  position : ReadPosition
  /-- the last one that began -/
  request : RequestState E
  stage : Stage E
  /-- `stop.signal.aborted` -/
  aborted : Bool
  closedByCaller : Bool
  endReported : Bool
  /-- `forwardAbort` listens to the caller's signal -/
  listening : Bool
  signalAborted : Bool
  history : List (Observation E)

/-- What the token thunk does before it returns. -/
structure ThunkCall where
  closes : Bool
  aborts : Bool
  deriving DecidableEq

inductive RequestEvent
  | tokenGiven (token : Text)
  | tokenThrew (error : Thrown)
  | responded (response : Response)
  | sendThrew (error : Thrown)
  | bodyRead (body : Option Text)
  | bodyCancelled
  | waited
  | reasonRead (body : Option Text)
  | reminted (token : Option Text)
  | remintThrew (error : Thrown)

inductive ReaderEvent
  | request (event : RequestEvent)
  /-- the first request has settled -/
  | open
  | deliver (thunk : ThunkCall)
  | applied
  | applyThrew (error : Thrown)
  | next (thunk : ThunkCall)
  | report
  | close
  | abort

namespace Reader

variable (options : StreamSourceOptions E) (w : Reader E)

def record (observation : Observation E) : Reader E := { w with history := observation :: w.history }

def settle (outcome : Except Thrown (Option (ReadResponse E))) : Reader E := { w with request := .settled outcome }

/-- The head of the loop of a request, with the header that a re-mint answered with. -/
def attempt (request : Request) (reminted : Option Text) : Reader E :=
  if w.aborted then w.settle (.ok none)
  else
    match reminted with
    | some authorization =>
      { w with request := .running { request with point := .sending } }.record (.sent authorization)
    | none => { w with request := .running { request with point := .token } }

/-- The `catch` of a request. -/
def caught (request : Request) (error : Option StreamReadError) : Reader E :=
  if w.aborted then w.settle (.ok none)
  else
    match error with
    | some error => w.settle (.error (.streamRead error))
    | none => { w with request := .running { request with point := .waiting } }

/-- A request goes on when what it waits for has settled. -/
def requestStep (request : Request) (event : RequestEvent) : Option (Reader E) :=
  let waitsAt (point : RequestPoint) : Reader E := { w with request := .running { request with point := point } }
  match request.point, event with
  | .token, .tokenGiven token => some (((waitsAt .sending).record (.minted token)).record (.sent (bearer token)))
  | .token, .tokenThrew error => some (w.settle (.error error))
  | .sending, .responded response =>
    if response.ok then some (waitsAt (.reading response))
    else
      match classifyStatus response.status with
      | .retry => some (waitsAt .cancelling)
      | .tokenRejected => some ((waitsAt (.failing response)).record .refused)
      | .terminal => some (waitsAt (.failing response))
  | .sending, .sendThrew error =>
    some (w.caught request (match error with | .streamRead error => some error | _ => none))
  | .reading response, .bodyRead body =>
    match readResponse options.jsonArray response body (options.requestUrl request.position) request.position.offset with
    | .ok answer => some ((w.settle (.ok (some answer))).record (.answered answer))
    | .error (.violation error) => some (w.caught request (some error))
    | .error .cutOff => some (w.caught request none)
  | .cancelling, .bodyCancelled => some (waitsAt .waiting)
  | .waiting, .waited => some (w.attempt request none)
  | .failing response, .reasonRead body =>
    let failure := failedRead response body (options.requestUrl request.position)
    if classifyStatus response.status = .tokenRejected && options.recovers && asksForToken request.recovering failure then
      some { w with request := .running { request with recovering := true, point := .reminting failure } }
    else some (w.settle (.error (.streamRead failure)))
  | .reminting failure, .reminted token =>
    match token with
    | none => some (w.settle (.error (.streamRead failure)))
    | some token => some ((w.record (.minted token)).attempt request (some (bearer token)))
  | .reminting _, .remintThrew error => some (w.settle (.error error))
  | _, _ => none

def close : Reader E :=
  { w with closedByCaller := true, listening := false, aborted := true }.record .closed

/-- The caller's signal aborts. -/
def abortSignal : Reader E :=
  { w with signalAborted := true, listening := false, aborted := w.aborted || w.listening }.record .signalled

/-- What the token thunk does before it returns. -/
def called (thunk : ThunkCall) : Reader E :=
  let w := if thunk.aborts && !w.signalAborted then w.abortSignal else w
  if thunk.closes then w.close else w

/-- A request begins, up to the call of the token thunk. -/
def asks (position : ReadPosition) : Reader E :=
  { w with position := position, request := .running ⟨position, false, .token⟩ }.record (.asked position)

/-- A round of `deliver`, up to its first await. -/
def round (response : ReadResponse E) (thunk : ThunkCall) : Reader E :=
  if w.aborted then { w with stage := .returning none }
  else if options.isLast response then { w with stage := .applying response false }.record (.handed response.batch)
  else
    { (w.asks (options.after w.position response)).called thunk with stage := .applying response true }.record
      (.handed response.batch)

/-- The `catch` of `deliver`; where `String` throws in it, nobody hears of the end. -/
def failed (error : Thrown) : Reader E :=
  if w.aborted then { w with stage := .returning none }
  else
    match error.toError with
    | some error => { w with aborted := true, stage := .returning (some error) }
    | none => { w with aborted := true, stage := .finished }

def reportEnd (error : Option Thrown) : Reader E :=
  let w := { w with listening := false }
  if w.endReported || w.closedByCaller then w else { w with endReported := true }.record (.ended error)

def step : ReaderEvent → Option (Reader E)
  | .request event =>
    match w.request with
    | .running request => w.requestStep options request event
    | .settled _ => none
  | .open =>
    match w.stage, w.request with
    | .opening, .settled (.ok (some first)) => some { w with stage := .opened first }
    | .opening, .settled (.ok none) =>
      some { w with
        listening := false
        stage := .rejected (.streamRead ⟨text "[pgxsinkit] stream read of " ++ options.url ++
          text " was aborted before its first response", none⟩) }
    | .opening, .settled (.error error) => some { w with listening := false, stage := .rejected error }
    | _, _ => none
  | .deliver thunk =>
    match w.stage with
    | .opened first => some (w.round options first thunk)
    | _ => none
  | .applied =>
    match w.stage with
    | .applying _ ahead => some ({ w with stage := if ahead then .awaiting else .returning none }.record .settled)
    | _ => none
  | .applyThrew error =>
    match w.stage with
    | .applying _ _ => some ((w.record .settled).failed error)
    | _ => none
  | .next thunk =>
    match w.stage, w.request with
    | .awaiting, .settled (.ok (some response)) => some (w.round options response thunk)
    | .awaiting, .settled (.ok none) => some { w with stage := .returning none }
    | .awaiting, .settled (.error error) => some (w.failed error)
    | _, _ => none
  | .report =>
    match w.stage with
    | .returning error => some { w.reportEnd error with stage := .finished }
    | _ => none
  | .close =>
    -- a caller holds no subscription before the call resolves
    match w.stage with
    | .opening | .rejected _ => none
    | _ => some w.close
  | .abort => if w.signalAborted then none else some w.abortSignal

/-- The call, with a signal that may have aborted before. -/
def initial (signalAborted : Bool) : Reader E where
  position := options.start
  request := if signalAborted then .settled (.ok none) else .running ⟨options.start, false, .token⟩
  stage := .opening
  aborted := signalAborted
  closedByCaller := false
  endReported := false
  listening := true
  signalAborted := signalAborted
  history := .asked options.start :: if signalAborted then [.signalled] else []

end Reader

end Circuits.StreamSource
