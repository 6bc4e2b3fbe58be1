/-
The parser of backend messages (`wire/parser.ts`, `wire/buffer-reader.ts`).

Every message starts with one type byte and a length of four bytes that counts itself but not the type.
Bytes that make no whole message wait in the buffer, from `offset` on and `remaining` many; the buffer
behind them may be filled up, reused from its start, or replaced by a larger one.
-/
import Pgxsinkit.Wire.Messages
import Pgxsinkit.Lib.OrdMap

namespace Wire

open Bytes Cursor Unicode

inductive ParseError
  /-- a `DataView` read outside of the buffer -/
  | rangeError
  | error (message : String)
  deriving DecidableEq, Repr

/-! ### buffer-reader.ts -/

namespace BufferReader

def int16 : Cursor ParseError ℤ := signed .rangeError 2

def byte : Cursor ParseError UInt8 := Cursor.byte .rangeError

def int32 : Cursor ParseError ℤ := signed .rangeError 4

def bytes (length : ℤ) : Cursor ParseError (List UInt8) := raw length

def string (length : ℤ) : Cursor ParseError Text := do
  let bytes ← bytes length
  return lossyDecode bytes

def cstring : Cursor ParseError Text := do
  let bytes ← terminated .rangeError
  return lossyDecode bytes

end BufferReader

open BufferReader

/-! ### The readers of the messages -/

def parseReadyForQueryMessage (length : ℕ) : Cursor ParseError BackendMessage := do
  let status ← string 1
  return .readyForQuery length status

def parseCommandCompleteMessage (length : ℕ) : Cursor ParseError BackendMessage := do
  let text ← cstring
  return .commandComplete length text

def parseCopyData (length : ℕ) : Cursor ParseError BackendMessage := do
  let chunk ← raw ((length : ℤ) - 4)
  return .copyData length chunk

def parseCopyMessage (length : ℕ) (messageName : MessageName) : Cursor ParseError BackendMessage := do
  let isBinary ← byte
  let columnCount ← int16
  let columnTypes ← times int16 columnCount.toNat
  return .copyResponse length messageName (isBinary ≠ 0) columnTypes

def parseNotificationMessage (length : ℕ) : Cursor ParseError BackendMessage := do
  let processId ← int32
  let channel ← cstring
  let payload ← cstring
  return .notification length processId channel payload

def parseField : Cursor ParseError Field := do
  let name ← cstring
  let tableID ← int32
  let columnID ← int16
  let dataTypeID ← int32
  let dataTypeSize ← int16
  let dataTypeModifier ← int32
  let mode ← int16
  return ⟨name, tableID, columnID, dataTypeID, dataTypeSize, dataTypeModifier,
    if mode = 0 then .text else .binary⟩

def parseRowDescriptionMessage (length : ℕ) : Cursor ParseError BackendMessage := do
  let fieldCount ← int16
  let fields ← times parseField fieldCount.toNat
  return .rowDescription length fields

def parseParameterDescriptionMessage (length : ℕ) : Cursor ParseError BackendMessage := do
  let parameterCount ← int16
  let dataTypeIDs ← times int32 parameterCount.toNat
  return .parameterDescription length dataTypeIDs

/-- A length of -1 is SQL NULL. -/
def parseValue : Cursor ParseError (Option Text) := do
  let len ← int32
  if len = -1 then return none
  else
    let value ← string len
    return some value

def parseDataRowMessage (length : ℕ) : Cursor ParseError BackendMessage := do
  let fieldCount ← int16
  let fields ← times parseValue fieldCount.toNat
  return .dataRow length fields

def parseParameterStatusMessage (length : ℕ) : Cursor ParseError BackendMessage := do
  let name ← cstring
  let value ← cstring
  return .parameterStatus length name value

def parseBackendKeyData (length : ℕ) : Cursor ParseError BackendMessage := do
  let processID ← int32
  let secretKey ← int32
  return .backendKeyData length processID secretKey

/-- Names up to an empty one. -/
def mechanismsLoop : ℕ → List Text → Cursor ParseError (List Text)
  | 0, _ => throw .rangeError
  | rounds + 1, mechanisms => do
    let mechanism ← cstring
    if mechanism = [] then return mechanisms
    else mechanismsLoop rounds (mechanisms ++ [mechanism])

def parseAuthenticationResponse (length : ℕ) : Cursor ParseError BackendMessage := do
  let code ← int32
  if code = 0 then return .plain .authenticationOk length
  else if code = 3 then return .plain .authenticationCleartextPassword length
  else if code = 5 then do
    let salt ← bytes 4
    return .authenticationMD5Password length salt
  else if code = 10 then do
    let mechanisms ← rounds fun n => mechanismsLoop n []
    return .authenticationSASL length mechanisms
  else if code = 11 then do
    let data ← string ((length : ℤ) - 8)
    return .authenticationSASLContinue length data
  else if code = 12 then do
    let data ← string ((length : ℤ) - 8)
    return .authenticationSASLFinal length data
  else throw (.error s!"Unknown authenticationOk message type {code}")

/-- Fields up to a zero byte. -/
def fieldsLoop : ℕ → OrdMap Text Text → Cursor ParseError (OrdMap Text Text)
  | 0, _ => throw .rangeError
  | rounds + 1, fields => do
    let fieldType ← string 1
    if fieldType = [0] then return fields
    else
      let value ← cstring
      fieldsLoop rounds (fields.set fieldType value)

def parseErrorMessage (length : ℕ) (name : MessageName) : Cursor ParseError BackendMessage := do
  let fields ← rounds fun n => fieldsLoop n .empty
  let messageValue := fields.get? [0x4d]
  let shared := NoticeOrError.ofCodes fun code => fields.get? [code.toUInt16]
  if name = .notice then return .notice length messageValue shared
  else return .databaseError (messageValue.getD []) length name shared

/-- `#handlePacket`, from the offset behind the header on. -/
def handlePacket (code : UInt8) (length : ℕ) : Cursor ParseError BackendMessage :=
  match code with
  | 0x32 => pure (.plain .bindComplete 5)
  | 0x31 => pure (.plain .parseComplete 5)
  | 0x33 => pure (.plain .closeComplete 5)
  | 0x6e => pure (.plain .noData 5)
  | 0x73 => pure (.plain .portalSuspended 5)
  | 0x63 => pure (.plain .copyDone 4)
  | 0x57 => pure (.plain .replicationStart 4)
  | 0x49 => pure (.plain .emptyQuery 4)
  | 0x44 => parseDataRowMessage length
  | 0x43 => parseCommandCompleteMessage length
  | 0x5a => parseReadyForQueryMessage length
  | 0x41 => parseNotificationMessage length
  | 0x52 => parseAuthenticationResponse length
  | 0x53 => parseParameterStatusMessage length
  | 0x4b => parseBackendKeyData length
  | 0x45 => parseErrorMessage length .error
  | 0x4e => parseErrorMessage length .notice
  | 0x54 => parseRowDescriptionMessage length
  | 0x74 => parseParameterDescriptionMessage length
  | 0x47 => parseCopyMessage length .copyInResponse
  | 0x48 => parseCopyMessage length .copyOutResponse
  | 0x64 => parseCopyData length
  | _ => pure (.databaseError
      (text "received invalid response: " ++
        (Nat.toDigits 16 code.toNat).flatMap fun digit => units digit) length .error .empty)

/-! ### The buffer -/

structure Parser where
  buffer : List UInt8
  remaining : ℕ
  offset : ℕ
  deriving DecidableEq, Repr

/-- A new parser, and what `#resetBuffer` leaves. -/
def Parser.new : Parser := ⟨[], 0, 0⟩

/-- `while (newLength >= newBufferLength) newBufferLength *= 2;`, which for a length of at least one byte is
over after as many rounds as there are bytes. -/
def doubled (newLength : ℕ) : ℕ → ℕ → ℕ
  | 0, newBufferLength => newBufferLength
  | rounds + 1, newBufferLength =>
    if newLength ≥ newBufferLength then doubled newLength rounds (newBufferLength * 2)
    else newBufferLength

/-- The first half of `#mergeBuffer`: a buffer with room for `newLength` bytes, and the offset of the pending
ones in it. -/
def Parser.makeRoom (parser : Parser) (newLength : ℕ) : List UInt8 × ℕ :=
  if newLength + parser.offset > parser.buffer.length then
    let newBuffer :=
      -- in place where the pending bytes do not overlap the start
      if newLength ≤ parser.buffer.length ∧ parser.offset ≥ parser.remaining then parser.buffer
      else zeros (doubled newLength newLength (parser.buffer.length * 2))
    (overwrite newBuffer 0 (slice parser.buffer parser.offset parser.remaining), 0)
  else (parser.buffer, parser.offset)

def Parser.mergeBuffer (parser : Parser) (chunk : List UInt8) : Parser :=
  if 0 < parser.remaining then
    let newLength := parser.remaining + chunk.length
    let (buffer, offset) := parser.makeRoom newLength
    ⟨overwrite buffer (offset + parser.remaining) chunk, newLength, offset⟩
  else ⟨chunk, chunk.length, 0⟩

/-- Where the loop of `parse` comes to an end. -/
inductive LoopEnd
  | waits (offset : ℕ)
  /-- a message was refused, and the buffer was reset -/
  | refused (error : ParseError)
  /-- a header could not be read -/
  | outside (error : ParseError)
  deriving DecidableEq, Repr

/-- `getUint8(offset)` and `getUint32(offset + 1)` -/
def header : Cursor ParseError (UInt8 × ℕ) := do
  let code ← byte
  let length ← unsigned .rangeError 4
  return (code, length)

/-- The loop of `parse`: what the callback receives, and how it ends.  Every round moves the offset by at
least two bytes. -/
def parseLoop (buffer : List UInt8) (fullLength : ℕ) : ℕ → ℕ → List BackendMessage × LoopEnd
  | 0, offset => ([], .waits offset)
  | rounds + 1, offset =>
    if offset + 5 ≤ fullLength then
      match header buffer offset with
      | .error e => ([], .outside e)
      | .ok ((code, length), _) =>
        if 1 + length + offset ≤ fullLength ∧ length > 0 then
          match handlePacket code length buffer ((offset : ℤ) + 5) with
          | .error e => ([], .refused e)
          | .ok (message, _) =>
            let (messages, loopEnd) := parseLoop buffer fullLength rounds (offset + (1 + length))
            (message :: messages, loopEnd)
        else ([], .waits offset)
    else ([], .waits offset)

/-- What one call of `parse` does: the messages called back, the error thrown, and the parser after it. -/
def Parser.parse (parser : Parser) (chunk : List UInt8) :
    List BackendMessage × Option ParseError × Parser :=
  let merged := parser.mergeBuffer chunk
  let bufferFullLength := merged.offset + merged.remaining
  match parseLoop merged.buffer bufferFullLength (bufferFullLength + 1) merged.offset with
  | (messages, .refused e) => (messages, some e, .new)
  | (messages, .outside e) => (messages, some e, merged)
  | (messages, .waits offset) =>
    if offset = bufferFullLength then (messages, none, .new)
    else (messages, none, { merged with remaining := bufferFullLength - offset, offset := offset })

/-- A view into a larger buffer, as the chunks of a stream are. -/
structure BufferView where
  buffer : List UInt8
  byteOffset : ℕ
  byteLength : ℕ
  fits : byteOffset + byteLength ≤ buffer.length

/-- `buffer.buffer.slice(buffer.byteOffset, buffer.byteOffset + buffer.byteLength)` -/
def BufferView.bytes (view : BufferView) : List UInt8 := slice view.buffer view.byteOffset view.byteLength

/-- Successive calls: all messages, all errors, and the parser at the end. -/
def Parser.parseAll (parser : Parser) : List BufferView → List BackendMessage × List ParseError × Parser
  | [] => ([], [], parser)
  | chunk :: chunks =>
    let (messages, thrown, next) := parser.parse chunk.bytes
    let (later, errors, last) := next.parseAll chunks
    (messages ++ later, thrown.toList ++ errors, last)

end Wire
