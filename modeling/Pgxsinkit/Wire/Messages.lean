/-
Backend messages on the wire, and the objects the parser calls back with (`wire/messages.ts`).

A `Packet` is one message of the protocol; its types admit what the protocol allows and nothing else, so
every packet has an encoding.  `Packet.seen` is the object that a packet becomes, for a given way of
reading texts, object ids, counts and lengths: `declared` is the protocol's own, `parsed` is the parser's.
-/
import Pgxsinkit.Lib.Cursor
import Pgxsinkit.Lib.Json
import Pgxsinkit.Lib.LossyText

namespace Wire

open Bytes Cursor Unicode

/-! ### What the parser calls back with -/

inductive MessageName
  | parseComplete
  | bindComplete
  | closeComplete
  | noData
  | portalSuspended
  | replicationStart
  | emptyQuery
  | copyDone
  | copyData
  | rowDescription
  | parameterDescription
  | parameterStatus
  | backendKeyData
  | notification
  | readyForQuery
  | commandComplete
  | dataRow
  | copyInResponse
  | copyOutResponse
  | authenticationOk
  | authenticationMD5Password
  | authenticationCleartextPassword
  | authenticationSASL
  | authenticationSASLContinue
  | authenticationSASLFinal
  | error
  | notice
  deriving DecidableEq, Repr

inductive Mode
  | text
  | binary
  deriving DecidableEq, Repr

structure Field where
  name : Text
  tableID : ℤ
  columnID : ℤ
  dataTypeID : ℤ
  dataTypeSize : ℤ
  dataTypeModifier : ℤ
  format : Mode
  deriving DecidableEq, Repr

/-- The fields an ErrorResponse and a NoticeResponse share, without the message. -/
structure NoticeOrError where
  severity : Option Text
  code : Option Text
  detail : Option Text
  hint : Option Text
  position : Option Text
  internalPosition : Option Text
  internalQuery : Option Text
  where' : Option Text
  schema : Option Text
  table : Option Text
  column : Option Text
  dataType : Option Text
  constraint : Option Text
  file : Option Text
  line : Option Text
  routine : Option Text
  deriving DecidableEq, Repr

def NoticeOrError.empty : NoticeOrError :=
  ⟨none, none, none, none, none, none, none, none, none, none, none, none, none, none, none, none⟩

/-- The objects of `messages.ts`; a `fieldCount` is the length of the list beside it. -/
inductive BackendMessage
  | plain (name : MessageName) (length : ℕ)
  | authenticationMD5Password (length : ℕ) (salt : List UInt8)
  | authenticationSASL (length : ℕ) (mechanisms : List Text)
  | authenticationSASLContinue (length : ℕ) (data : Text)
  | authenticationSASLFinal (length : ℕ) (data : Text)
  | databaseError (message : Text) (length : ℕ) (name : MessageName) (fields : NoticeOrError)
  | copyData (length : ℕ) (chunk : List UInt8)
  | copyResponse (length : ℕ) (name : MessageName) (binary : Bool) (columnTypes : List ℤ)
  | rowDescription (length : ℕ) (fields : List Field)
  | parameterDescription (length : ℕ) (dataTypeIDs : List ℤ)
  | parameterStatus (length : ℕ) (parameterName parameterValue : Text)
  | backendKeyData (length : ℕ) (processID secretKey : ℤ)
  | notification (length : ℕ) (processId : ℤ) (channel payload : Text)
  | readyForQuery (length : ℕ) (status : Text)
  | commandComplete (length : ℕ) (text : Text)
  | dataRow (length : ℕ) (fields : List (Option Text))
  | notice (length : ℕ) (message : Option Text) (fields : NoticeOrError)
  deriving DecidableEq, Repr

/-! ### Packets -/

/-- A text that a zero byte can terminate. -/
structure CString where
  chars : List Char
  nonzero : Char.ofNat 0 ∉ chars

/-- As many items as a two-byte count can announce. -/
structure Counted (α : Type) where
  items : List α
  fits : items.length < 2 ^ 16

structure FieldDescription where
  name : CString
  tableID : BitVec 32
  columnID : BitVec 16
  dataTypeID : BitVec 32
  dataTypeSize : BitVec 16
  dataTypeModifier : BitVec 32
  format : Mode

/-- The fields of an ErrorResponse or a NoticeResponse by their codes, each once, with the message. -/
structure ErrorFields where
  items : List (UInt8 × CString)
  nonzero : ∀ item ∈ items, item.1 ≠ 0
  distinct : (items.map Prod.fst).Nodup
  message : 0x4d ∈ items.map Prod.fst

inductive TransactionStatus
  | idle
  | inTransaction
  | failed
  deriving DecidableEq, Repr

def TransactionStatus.byte : TransactionStatus → UInt8
  | idle => 0x49
  | inTransaction => 0x54
  | failed => 0x45

/-- `columnTypes` of a CopyBothResponse come with it, though the parser does not read them. -/
inductive Packet
  | parseComplete
  | bindComplete
  | closeComplete
  | noData
  | portalSuspended
  | emptyQuery
  | copyDone
  | copyBoth (binary : Bool) (columnTypes : Counted (BitVec 16))
  | copyIn (binary : Bool) (columnTypes : Counted (BitVec 16))
  | copyOut (binary : Bool) (columnTypes : Counted (BitVec 16))
  | copyData (chunk : List UInt8)
  | dataRow (fields : Counted (Option (List Char)))
  | rowDescription (fields : Counted FieldDescription)
  | parameterDescription (dataTypeIDs : Counted (BitVec 32))
  | parameterStatus (name value : CString)
  | backendKeyData (processID secretKey : BitVec 32)
  | notification (processId : BitVec 32) (channel payload : CString)
  | readyForQuery (status : TransactionStatus)
  | commandComplete (tag : CString)
  | authenticationOk
  | authenticationCleartextPassword
  | authenticationMD5Password (salt : Vector UInt8 4)
  | authenticationSASL (mechanisms : List { mechanism : CString // mechanism.chars ≠ [] })
  | authenticationSASLContinue (data : List Char)
  | authenticationSASLFinal (data : List Char)
  | error (fields : ErrorFields)
  | notice (fields : ErrorFields)

/-! ### The encoding -/

def int16Bytes (v : BitVec 16) : List UInt8 := beBytes 2 v.toNat

def int32Bytes (v : BitVec 32) : List UInt8 := beBytes 4 v.toNat

def CString.bytes (text : CString) : List UInt8 := utf8 text.chars ++ [0]

def Mode.bytes : Mode → List UInt8
  | text => int16Bytes 0
  | binary => int16Bytes 1

/-- A count of two bytes, and the items. -/
def Counted.bytes {α : Type} (item : α → List UInt8) (list : Counted α) : List UInt8 :=
  int16Bytes (BitVec.ofNat 16 list.items.length) ++ list.items.flatMap item

def FieldDescription.bytes (field : FieldDescription) : List UInt8 :=
  field.name.bytes ++ (int32Bytes field.tableID ++ (int16Bytes field.columnID ++
    (int32Bytes field.dataTypeID ++ (int16Bytes field.dataTypeSize ++
      (int32Bytes field.dataTypeModifier ++ field.format.bytes)))))

/-- A length of four bytes and the text, or the length -1 of a NULL. -/
def valueBytes : Option (List Char) → List UInt8
  | none => int32Bytes (BitVec.ofInt 32 (-1))
  | some chars => beBytes 4 (utf8 chars).length ++ utf8 chars

def ErrorFields.bytes (fields : ErrorFields) : List UInt8 :=
  (fields.items.flatMap fun item => item.1 :: item.2.bytes) ++ [0]

def copyBytes (binary : Bool) (columnTypes : Counted (BitVec 16)) : List UInt8 :=
  (if binary then 1 else 0) :: columnTypes.bytes int16Bytes

namespace Packet

def code : Packet → UInt8
  | parseComplete => 0x31
  | bindComplete => 0x32
  | closeComplete => 0x33
  | noData => 0x6e
  | portalSuspended => 0x73
  | emptyQuery => 0x49
  | copyDone => 0x63
  | copyBoth _ _ => 0x57
  | copyIn _ _ => 0x47
  | copyOut _ _ => 0x48
  | copyData _ => 0x64
  | dataRow _ => 0x44
  | rowDescription _ => 0x54
  | parameterDescription _ => 0x74
  | parameterStatus _ _ => 0x53
  | backendKeyData _ _ => 0x4b
  | notification _ _ _ => 0x41
  | readyForQuery _ => 0x5a
  | commandComplete _ => 0x43
  | authenticationOk | authenticationCleartextPassword | authenticationMD5Password _
  | authenticationSASL _ | authenticationSASLContinue _ | authenticationSASLFinal _ => 0x52
  | error _ => 0x45
  | notice _ => 0x4e

def body : Packet → List UInt8
  | parseComplete | bindComplete | closeComplete | noData | portalSuspended | emptyQuery | copyDone => []
  | copyBoth binary columnTypes | copyIn binary columnTypes | copyOut binary columnTypes =>
    copyBytes binary columnTypes
  | copyData chunk => chunk
  | dataRow fields => fields.bytes valueBytes
  | rowDescription fields => fields.bytes FieldDescription.bytes
  | parameterDescription dataTypeIDs => dataTypeIDs.bytes int32Bytes
  | parameterStatus name value => name.bytes ++ value.bytes
  | backendKeyData processID secretKey => int32Bytes processID ++ int32Bytes secretKey
  | notification processId channel payload => int32Bytes processId ++ (channel.bytes ++ payload.bytes)
  | readyForQuery status => [status.byte]
  | commandComplete tag => tag.bytes
  | authenticationOk => int32Bytes 0
  | authenticationCleartextPassword => int32Bytes 3
  | authenticationMD5Password salt => int32Bytes 5 ++ salt.toList
  | authenticationSASL mechanisms =>
    int32Bytes 10 ++ ((mechanisms.flatMap fun mechanism => mechanism.1.bytes) ++ [0])
  | authenticationSASLContinue data => int32Bytes 11 ++ utf8 data
  | authenticationSASLFinal data => int32Bytes 12 ++ utf8 data
  | error fields | notice fields => fields.bytes

/-- The length that the header declares: its own four bytes and the body. -/
def length (packet : Packet) : ℕ := packet.body.length + 4

end Packet

/-- A packet whose length the four bytes of the header can declare. -/
structure Message where
  packet : Packet
  fits : packet.length < 2 ^ 31

def Message.encode (message : Message) : List UInt8 :=
  message.packet.code :: (beBytes 4 message.packet.length ++ message.packet.body)

/-! ### The object a packet becomes -/

/-- A way to read the parts of a packet. -/
structure Reading where
  text : List Char → Text
  oid : BitVec 32 → ℤ
  /-- how many of a list are read, by its length -/
  count : ℕ → ℕ
  /-- which of the names of mechanisms are read -/
  names : List Text → List Text
  /-- the length of an object that the parser keeps ready, from its own and from the declared one -/
  constant : ℕ → ℕ → ℕ

namespace Reading

variable (reading : Reading)

def items {α : Type} (list : Counted α) : List α := list.items.take (reading.count list.items.length)

def field (field : FieldDescription) : Field where
  name := reading.text field.name.chars
  tableID := reading.oid field.tableID
  columnID := field.columnID.toInt
  dataTypeID := reading.oid field.dataTypeID
  dataTypeSize := field.dataTypeSize.toInt
  dataTypeModifier := field.dataTypeModifier.toInt
  format := field.format

/-- The text of one field of an error, by its code. -/
def errorText (fields : ErrorFields) (code : UInt8) : Option Text :=
  (fields.items.lookup code).map fun value => reading.text value.chars

end Reading

/-- The codes in the order of the fields. -/
def NoticeOrError.ofCodes (field : UInt8 → Option Text) : NoticeOrError where
  severity := field 0x53
  code := field 0x43
  detail := field 0x44
  hint := field 0x48
  position := field 0x50
  internalPosition := field 0x70
  internalQuery := field 0x71
  where' := field 0x57
  schema := field 0x73
  table := field 0x74
  column := field 0x63
  dataType := field 0x64
  constraint := field 0x6e
  file := field 0x46
  line := field 0x4c
  routine := field 0x52

def Packet.seen (reading : Reading) (packet : Packet) : BackendMessage :=
  let length := packet.length
  match packet with
  | parseComplete => .plain .parseComplete (reading.constant 5 length)
  | bindComplete => .plain .bindComplete (reading.constant 5 length)
  | closeComplete => .plain .closeComplete (reading.constant 5 length)
  | noData => .plain .noData (reading.constant 5 length)
  | portalSuspended => .plain .portalSuspended (reading.constant 5 length)
  | emptyQuery => .plain .emptyQuery (reading.constant 4 length)
  | copyDone => .plain .copyDone (reading.constant 4 length)
  | copyBoth _ _ => .plain .replicationStart (reading.constant 4 length)
  | copyIn binary columnTypes =>
    .copyResponse length .copyInResponse binary ((reading.items columnTypes).map BitVec.toInt)
  | copyOut binary columnTypes =>
    .copyResponse length .copyOutResponse binary ((reading.items columnTypes).map BitVec.toInt)
  | copyData chunk => .copyData length chunk
  | dataRow fields => .dataRow length ((reading.items fields).map (Option.map reading.text))
  | rowDescription fields => .rowDescription length ((reading.items fields).map reading.field)
  | parameterDescription dataTypeIDs =>
    .parameterDescription length ((reading.items dataTypeIDs).map reading.oid)
  | parameterStatus name value =>
    .parameterStatus length (reading.text name.chars) (reading.text value.chars)
  | backendKeyData processID secretKey => .backendKeyData length processID.toInt secretKey.toInt
  | notification processId channel payload =>
    .notification length processId.toInt (reading.text channel.chars) (reading.text payload.chars)
  | readyForQuery status => .readyForQuery length [status.byte.toUInt16]
  | commandComplete tag => .commandComplete length (reading.text tag.chars)
  | authenticationOk => .plain .authenticationOk length
  | authenticationCleartextPassword => .plain .authenticationCleartextPassword length
  | authenticationMD5Password salt => .authenticationMD5Password length salt.toList
  | authenticationSASL mechanisms =>
    .authenticationSASL length
      (reading.names (mechanisms.map fun mechanism => reading.text mechanism.1.chars))
  | authenticationSASLContinue data => .authenticationSASLContinue length (reading.text data)
  | authenticationSASLFinal data => .authenticationSASLFinal length (reading.text data)
  | error fields => .databaseError ((reading.errorText fields 0x4d).getD []) length .error
      (.ofCodes (reading.errorText fields))
  | notice fields => .notice length (reading.errorText fields 0x4d) (.ofCodes (reading.errorText fields))

/-- The protocol's own reading: every field as it was encoded. -/
def declared : Reading where
  text := ofChars
  oid v := v.toNat
  count n := n
  names names := names
  constant _ length := length

/-- The parser's: `TextDecoder` drops a leading byte order mark, every integer is signed, and the names of
mechanisms end where one reads as empty. -/
def parsed : Reading where
  text chars := ofChars (dropBom chars)
  oid v := v.toInt
  count n := (BitVec.ofNat 16 n).toInt.toNat
  names names := names.takeWhile fun name => name ≠ []
  constant own _ := own

end Wire
