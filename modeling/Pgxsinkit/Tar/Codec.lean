/-
The ustar codec of a Store backup: `writeTar` and `readTar`.

Writing fills a zeroed archive in place, a 512-byte header, the payload and its padding for each
entry, and leaves two zero records at the end.  Reading accepts more than is written: PAX headers
(`x` and `g`) and GNU long names (`L`).  It throws for an archive that stops short.
-/
import Pgxsinkit.Lib.JsNumber
import Pgxsinkit.Lib.Layout
import Pgxsinkit.Lib.LossyText
import Pgxsinkit.Lib.Checked

namespace Tar

open Bytes Checked Unicode

inductive EntryType
  | file
  | directory
  deriving DecidableEq

/-- One archive member. -/
structure TarEntry where
  name : Text
  type : EntryType
  mode : JsNumber
  mtimeSeconds : JsNumber
  data : List UInt8

inductive TarFormatError
  | missingEnd (offset : ℕ)
  | endsInsideHeader (offset : ℕ)
  | oneEndRecord (offset : ℕ)
  | noMember
  | runsPastEnd (offset : ℕ)
  | unsupportedType (name typeflag : Text)
  | tooLong (name : Text)
  | fieldOverflow (value : Text)
  | outOfRange (value : JsNumber)
  | base256 (recordOffset : ℕ)
  | malformedNumber (recordOffset : ℕ) (value : Text)
  | failsChecksum (recordOffset : ℕ)
  | malformedRecord (recordOffset : ℕ)
  | malformedSize (recordOffset : ℕ) (value : Text)

/-- The digits of a natural number. -/
def decimal (n : ℕ) : Text := ofChars (Nat.toDigits 10 n)

/-- The message of an error, given what `String(value)` makes of a number. -/
def TarFormatError.message (numberText : JsNumber → Text) : TarFormatError → Text
  | missingEnd offset => text "tar archive ends at byte " ++ decimal offset ++
      text " without its end-of-archive records: it is truncated"
  | endsInsideHeader offset => text "tar archive ends inside the header at byte " ++
      decimal offset ++ text ": it is truncated"
  | oneEndRecord offset => text "tar archive has one end-of-archive record at byte " ++
      decimal offset ++ text ", not two: it is truncated or damaged"
  | noMember => text "tar archive ends after an extended header with no member for it"
  | runsPastEnd offset => text "tar member at byte " ++ decimal offset ++
      text " runs past the end of the archive: it is truncated"
  | unsupportedType name typeflag => text "tar member \"" ++ name ++
      text "\" has unsupported type \"" ++ typeflag ++ text "\""
  | tooLong name => text "tar member name is too long to store: \"" ++ name ++ text "\""
  | fieldOverflow value => text "tar header field overflow: \"" ++ value ++ text "\""
  | outOfRange value => text "tar header number out of range: " ++ numberText value
  | base256 recordOffset => text "tar header at byte " ++ decimal recordOffset ++
      text " uses base-256 numbers, which are not supported"
  | malformedNumber recordOffset value => text "tar header at byte " ++ decimal recordOffset ++
      text " has a malformed number: \"" ++ value ++ text "\""
  | failsChecksum recordOffset => text "tar header at byte " ++ decimal recordOffset ++
      text " fails its checksum"
  | malformedRecord recordOffset => text "tar PAX header before byte " ++ decimal recordOffset ++
      text " has a malformed record"
  | malformedSize recordOffset value => text "tar PAX header before byte " ++
      decimal recordOffset ++ text " has a malformed size (\"" ++ value ++ text "\")"

def RECORD : ℕ := 512
def NAME_LENGTH : ℕ := 100
def PREFIX_LENGTH : ℕ := 155

def slash : UInt16 := 0x2f

/-- `Math.ceil(size / RECORD) * RECORD` -/
def padded (size : ℕ) : ℕ := (size + (RECORD - 1)) / RECORD * RECORD

/-! ### Writing -/

/-- `value.padStart(length, "0")` -/
def padStart (length : ℕ) (value : Text) : Text :=
  List.replicate (length - value.length) 0x30 ++ value

/-- `value.toString(8)` -/
def octal (value : ℕ) : Text := ofChars (Nat.toDigits 8 value)

def writeString (archive : List UInt8) (start length : ℕ) (value : Text)
    (terminate : Bool := true) : Except TarFormatError (List UInt8) := do
  let bytes := textEncode value
  throwIf ((if terminate then length - 1 else length) < bytes.length) (.fieldOverflow value)
  return overwrite archive start bytes

def writeOctal (archive : List UInt8) (start length : ℕ) (value : JsNumber) :
    Except TarFormatError (List UInt8) :=
  match value.safeInteger? with
  | some (.ofNat n) => do
    throwIf (length - 1 < (octal n).length) (.outOfRange value)
    writeString archive start length (padStart (length - 1) (octal n))
  | _ => .error (.outOfRange value)

/-- The parts of a name before and after each of its slashes, from the left. -/
def cuts : Text → List (Text × Text)
  | [] => []
  | unit :: rest =>
    let later := (cuts rest).map fun (before, after) => (unit :: before, after)
    if unit = slash then ([], rest) :: later else later

/-- Split a name that does not fit the 99-byte name field into ustar's pair. -/
def splitName (name : Text) : Except TarFormatError (Text × Text) :=
  if (textEncode name).length < NAME_LENGTH then .ok ([], name)
  else
    orThrow ((cuts name).find? fun (before, rest) =>
        (textEncode before).length < PREFIX_LENGTH ∧ (textEncode rest).length < NAME_LENGTH)
      (.tooLong name)

/-- `entry.mode & 0o7777` -/
def permissionBits (mode : JsNumber) : ℕ := (mode.toInt32 &&& 0o7777#32).toNat

/-- `Math.max(0, Math.floor(entry.mtimeSeconds))` -/
def storedTime (mtimeSeconds : JsNumber) : JsNumber := mtimeSeconds.floor.atLeastZero

def EntryType.flag : EntryType → UInt8
  | directory => 0x35
  | file => 0x30

def byteSum (bytes : List UInt8) : ℕ := (bytes.map UInt8.toNat).sum

def writeHeader (archive : List UInt8) (offset : ℕ) (entry : TarEntry) (size : ℕ) :
    Except TarFormatError (List UInt8) := do
  let (before, rest) ← splitName entry.name
  let archive ← writeString archive (offset + 0) NAME_LENGTH rest
  let archive ← writeOctal archive (offset + 100) 8 (.ofNat (permissionBits entry.mode))
  let archive ← writeOctal archive (offset + 108) 8 (.ofNat 0)
  let archive ← writeOctal archive (offset + 116) 8 (.ofNat 0)
  let archive ← writeOctal archive (offset + 124) 12 (.ofNat size)
  let archive ← writeOctal archive (offset + 136) 12 (storedTime entry.mtimeSeconds)
  let archive := overwrite archive (offset + 156) [entry.type.flag]
  let archive ← writeString archive (offset + 257) 6 (text "ustar")
  let archive ← writeString archive (offset + 263) 2 (text "00") false
  let archive ← writeString archive (offset + 345) PREFIX_LENGTH before
  -- the checksum is computed with its own field read as eight spaces
  let archive := overwrite archive (offset + 148) (List.replicate 8 0x20)
  let sum := byteSum (slice archive offset RECORD)
  let archive := overwrite archive (offset + 148) (textEncode (padStart 6 (octal sum)))
  return overwrite archive (offset + 154) [0]

/-- The bytes of an entry's payload. -/
def TarEntry.payload (entry : TarEntry) : List UInt8 :=
  match entry.type with
  | .file => entry.data
  | .directory => []

/-- One turn of the loop of `writeTar`. -/
def writeEntry (state : List UInt8 × ℕ) (entry : TarEntry) :
    Except TarFormatError (List UInt8 × ℕ) := do
  let (archive, offset) := state
  let size := entry.payload.length
  let archive ← writeHeader archive offset entry size
  let offset := offset + RECORD
  let archive := if 0 < size then overwrite archive offset entry.data else archive
  return (archive, offset + padded size)

def totalLength (entries : List TarEntry) : ℕ :=
  entries.foldl (fun total entry => total + (RECORD + padded entry.payload.length)) (RECORD * 2)

def writeTar (entries : List TarEntry) : Except TarFormatError (List UInt8) := do
  let (archive, _) ← foldChecked writeEntry (zeros (totalLength entries), 0) entries
  return archive

/-! ### Reading -/

def readCString (bytes : List UInt8) (start length : ℕ) : Text :=
  lossyDecode ((slice bytes start length).takeWhile (· ≠ 0))

def readOctal (header : List UInt8) (start length recordOffset : ℕ) : Except TarFormatError ℕ := do
  throwIf ((header.getD start 0) &&& 0x80 ≠ 0) (.base256 recordOffset)
  let digits := JsNumber.trim (readCString header start length)
  if digits = [] then return 0
  throwIf (¬ digits.all fun unit => 0x30 ≤ unit && unit ≤ 0x37) (.malformedNumber recordOffset digits)
  return JsNumber.ofDigits 8 (digits.map fun unit => unit.toNat - 0x30)

def verifyChecksum (header : List UInt8) (recordOffset : ℕ) : Except TarFormatError Unit := do
  let stored ← readOctal header 148 8 recordOffset
  let sum := byteSum (overwrite header 148 (List.replicate 8 0x20))
  throwIf (sum ≠ stored) (.failsChecksum recordOffset)

def isZeroRecord (header : List UInt8) : Bool := header.all (· = 0)

def joinPrefix (header : List UInt8) : Text :=
  let name := readCString header 0 NAME_LENGTH
  let magic := readCString header 257 6
  if magic ≠ text "ustar" then name
  else
    let before := readCString header 345 PREFIX_LENGTH
    if before = [] then name else before ++ slash :: name

/-- What a PAX header says of the next member. -/
structure Pax where
  path : Option Text := none
  size : Option ℕ := none

/-- `Number.MAX_SAFE_INTEGER` -/
def maxSafeInteger : ℕ := 2 ^ 53 - 1

/-- A PAX record's key and value taken into account. -/
def Pax.take (pax : Pax) (recordOffset : ℕ) (key value : Text) : Except TarFormatError Pax :=
  if key = text "path" then .ok { pax with path := some value }
  else if key = text "size" then
    let size := JsNumber.decimalValue value
    if value ≠ [] ∧ value.all JsNumber.isDigit ∧ size ≤ maxSafeInteger then
      .ok { pax with size := some size }
    else .error (.malformedSize recordOffset value)
  else .ok pax

/-- The records of a PAX header that are left, `"<length> <key>=<value>\n"` each. -/
def readRecords (recordOffset : ℕ) (pax : Pax) (rest : List UInt8) : Except TarFormatError Pax :=
  if rest = [] then .ok pax
  else
    let space := (rest.takeWhile (· ≠ 0x20)).length
    let lengthText := lossyDecode (rest.take space)
    let length := JsNumber.decimalValue lengthText
    if rest.length ≤ space ∨ lengthText = [] ∨ ¬ lengthText.all JsNumber.isDigit then
      .error (.malformedRecord recordOffset)
    else if maxSafeInteger < length ∨ length ≤ space + 1 ∨ rest.length < length then
      .error (.malformedRecord recordOffset)
    else if rest.getD (length - 1) 0 ≠ 0x0a then .error (.malformedRecord recordOffset)
    else do
      let record := lossyDecode (slice rest (space + 1) (length - 1 - (space + 1)))
      throwIf (0x3d ∉ record) (.malformedRecord recordOffset)
      let key := record.takeWhile (· ≠ 0x3d)
      let value := record.drop (key.length + 1)
      let pax ← pax.take recordOffset key value
      readRecords recordOffset pax (rest.drop length)
  termination_by rest.length
  decreasing_by
    rw [List.length_drop]
    have hbounds : 0 < length ∧ length ≤ rest.length := by omega
    exact Nat.sub_lt (Nat.lt_of_lt_of_le hbounds.1 hbounds.2) hbounds.1

def readPax (data : List UInt8) (recordOffset : ℕ) : Except TarFormatError Pax :=
  readRecords recordOffset {} data

/-- The member a header stands for, `offset` being that behind its payload. -/
def readMember (header data : List UInt8) (name typeflag : Text) (offset : ℕ) :
    Except TarFormatError TarEntry := do
  let mode ← readOctal header 100 8 offset
  let mode := JsNumber.ofNat (mode &&& 0o7777)
  let mtime ← readOctal header 136 12 offset
  let mtimeSeconds := JsNumber.ofNat mtime
  if typeflag = text "0" ∨ typeflag = [0] ∨ typeflag = text "7" then
    return { name, type := .file, mode, mtimeSeconds, data }
  else if typeflag = text "5" then
    return { name, type := .directory, mode, mtimeSeconds, data := [] }
  else throw (.unsupportedType name typeflag)

/-- The loop of `readTar` from an offset on. -/
def readFrom (archive : List UInt8) (offset : ℕ) (pendingName : Option Text)
    (pendingSize : Option ℕ) (entries : List TarEntry) : Except TarFormatError (List TarEntry) :=
  if offset = archive.length then .error (.missingEnd offset)
  else if archive.length < offset + RECORD then .error (.endsInsideHeader offset)
  else
    let header := slice archive offset RECORD
    if isZeroRecord header then do
      let second := slice archive (offset + RECORD) RECORD
      throwIf (second.length < RECORD ∨ ¬ isZeroRecord second) (.oneEndRecord offset)
      throwIf (pendingName.isSome ∨ pendingSize.isSome) .noMember
      return entries
    else do
      verifyChecksum header offset
      let typeflag : Text := [(header.getD 156 0).toUInt16]
      let declaredSize ← readOctal header 124 12 offset
      let size := pendingSize.getD declaredSize
      let dataStart := offset + RECORD
      throwIf (archive.length < dataStart + padded size) (.runsPastEnd offset)
      let data := slice archive dataStart size
      let next := dataStart + padded size
      if typeflag = text "x" then
        let pax ← readPax data next
        readFrom archive next (pax.path <|> pendingName) pax.size entries
      else if typeflag = text "g" then
        readFrom archive next pendingName pendingSize entries
      else if typeflag = text "L" then
        readFrom archive next (some (readCString data 0 data.length)) pendingSize entries
      else
        let name := pendingName.getD (joinPrefix header)
        let entry ← readMember header data name typeflag next
        readFrom archive next none none (entries ++ [entry])
  termination_by archive.length - offset
  decreasing_by
    all_goals
      have hrecord : RECORD = 512 := rfl
      omega

def readTar (archive : List UInt8) : Except TarFormatError (List TarEntry) :=
  readFrom archive 0 none none []

end Tar
