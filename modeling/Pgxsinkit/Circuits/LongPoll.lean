/-
One read request of a shape stream, and what its answer means.

`classifyStatus`, `failedRead` and `readResponse` of packages/client/src/circuits/long-poll.ts.  A response comes in two
parts, its status and headers and then its body, which is `none` when it is cut off.  `JSON.parse` is a parameter:
`jsonArray` has the items of a text that is a JSON array.
-/
import Pgxsinkit.Lib.JsNumber

namespace Circuits.StreamSource

open Json Unicode

/-- Where the next request reads from. -/
structure ReadPosition where
  offset : Text
  cursor : Option Text
  longPoll : Bool
  deriving DecidableEq

structure ReadResponse (E : Type) where
  envelopes : List E
  offset : Text
  cursor : Option Text
  upToDate : Bool
  closed : Bool
  deriving DecidableEq

structure StreamReadError where
  message : Text
  status : Option ℕ
  deriving DecidableEq

inductive StatusVerdict
  | tokenRejected
  | retry
  | terminal
  deriving DecidableEq

def classifyStatus (status : ℕ) : StatusVerdict :=
  if status = 401 ∨ status = 403 then .tokenRejected
  else if status = 429 ∨ 500 ≤ status then .retry
  else .terminal

/-- The status of a response, and the headers that the reader reads. -/
structure Response where
  status : ℕ
  streamNextOffset : Option Text
  /-- the header is there -/
  streamUpToDate : Bool
  streamCursor : Option Text
  streamClosed : Option Text
  deriving DecidableEq

def Response.ok (response : Response) : Bool := 200 ≤ response.status && response.status ≤ 299

def failedRead (response : Response) (body : Option Text) (url : Text) : StreamReadError :=
  let body := JsNumber.trim (body.getD [])
  let reason := if 200 < body.length then body.take 200 ++ text "…" else body
  ⟨text "[pgxsinkit] stream read failed: HTTP " ++ ofChars (Nat.toDigits 10 response.status) ++ text " at " ++ url ++
    (if reason = [] then [] else text ": " ++ reason), some response.status⟩

inductive ReadFailure
  | violation (error : StreamReadError)
  /-- `response.text()` rejects -/
  | cutOff
  deriving DecidableEq

def noNextOffset (url : Text) : Text :=
  text "[pgxsinkit] stream response carried no Stream-Next-Offset (" ++ url ++
    text "). A cross-origin edge must expose the stream-* headers on Access-Control-Expose-Headers (STREAM_READ_EXPOSED_HEADERS)."

def notAnArray (url : Text) : Text :=
  text "[pgxsinkit] stream response body is not a JSON array (" ++ url ++ text ")"

def neitherMoved (url : Text) : Text :=
  text "[pgxsinkit] stream response neither advanced the offset nor reached the tail (" ++ url ++
    text "). Is the edge exposing Stream-Up-To-Date (STREAM_READ_EXPOSED_HEADERS)?"

/-- The value of a header is of bytes, so that only ASCII letters have a lower case of ASCII letters. -/
def lowerCase (unit : UInt16) : UInt16 := if 0x41 ≤ unit ∧ unit ≤ 0x5a then unit + 0x20 else unit

variable {E : Type}

/-- The text of the body, `""` where it is not read. -/
def Response.bodyText (response : Response) (body : Option Text) : Except ReadFailure Text :=
  if response.status = 204 then .ok []
  else
    match body with
    | some body => .ok (JsNumber.trim body)
    | none => .error .cutOff

def readResponse (jsonArray : Text → Option (List E)) (response : Response) (body : Option Text)
    (url requestedOffset : Text) : Except ReadFailure (ReadResponse E) := do
  let violation (message : Text) : ReadFailure := .violation ⟨message, some response.status⟩
  let offset := response.streamNextOffset.getD []
  if offset = [] then throw (violation (noNextOffset url))
  let body ← response.bodyText body
  match if body = [] then some [] else jsonArray body with
  | none => throw (violation (notAnArray url))
  | some envelopes =>
    let closed := response.streamClosed.any fun value => value.map lowerCase = text "true"
    if envelopes.isEmpty && offset = requestedOffset && !response.streamUpToDate && !closed then
      throw (violation (neitherMoved url))
    return ⟨envelopes, offset, response.streamCursor, response.streamUpToDate, closed⟩

/-- An answer never has the reader ask the same question again at once. -/
theorem readResponse_moves {jsonArray : Text → Option (List E)} {response : Response} {body : Option Text}
    {url requestedOffset : Text} {answer : ReadResponse E}
    (h : readResponse jsonArray response body url requestedOffset = .ok answer) :
    answer.offset ≠ [] ∧
      (answer.envelopes ≠ [] ∨ answer.offset ≠ requestedOffset ∨ answer.upToDate = true ∨ answer.closed = true) := by
  simp only [readResponse, bind, Except.bind, pure, Except.pure, throw, throwThe, MonadExceptOf.throw] at h
  split at h
  · cases h
  rename_i hoffset
  split at h
  · cases h
  split at h
  · cases h
  split at h
  · cases h
  rename_i hmoves
  obtain rfl := Except.ok.inj h
  refine ⟨hoffset, ?_⟩
  simp only [Bool.and_eq_true, List.isEmpty_iff, decide_eq_true_eq, Bool.not_eq_true', not_and,
    Bool.not_eq_false] at hmoves
  by_contra hstays
  simp only [not_or, not_not, Bool.not_eq_true] at hstays
  obtain ⟨hempty, hsame, htail, hclosed⟩ := hstays
  exact absurd (hmoves ⟨⟨hempty, hsame⟩, htail⟩) (by simp [hclosed])

end Circuits.StreamSource
