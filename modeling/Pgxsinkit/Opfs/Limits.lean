/-
Errors and hard limits of the repacked store (`core/errors.ts`, `core/limits.ts`).

JavaScript `number`s and `bigint`s (inode ids, extent ids, sizes, timestamps) that have
been validated are `Nat` here; the checks that validate them take an `Int`, since an
unchecked value may be negative.
-/
import Pgxsinkit.Lib.Checked
import Mathlib

namespace Opfs

open Checked

/-- The keys of `FS_ERRNO`. -/
inductive FsErrorName
  | EBADF | EEXIST | EINVAL | EIO | EISDIR | ELOOP | ENOENT | ENOTDIR | ENOTEMPTY | EXDEV
  deriving DecidableEq, Repr

/-- The error classes of the core, with their messages. -/
inductive StoreError
  | fsError (name : FsErrorName) (message : String)
  | storeLimit (message : String)
  | corruptStore (message : String)
  | storeRecreationRequired (message : String)
  | extentSizeMismatch (expected actual : Nat)
  | typeError (message : String)
  | unexpectedStoreEntry (entryName : String)
  | storeClosed
  | storeFailed
  | error (message : String)
  deriving DecidableEq, Repr

/-- `String(cause)` -/
def StoreError.describe : StoreError → String
  | .fsError _ message => s!"FsError: {message}"
  | .storeLimit message => s!"StoreLimitError: {message}"
  | .corruptStore message => s!"CorruptStoreError: {message}"
  | .storeRecreationRequired message => s!"StoreRecreationRequiredError: {message}"
  | .extentSizeMismatch expected actual =>
    s!"ExtentSizeMismatchError: configured extent size {expected} does not match persisted extent size {actual}"
  | .typeError message => s!"TypeError: {message}"
  | .unexpectedStoreEntry entryName =>
    s!"UnexpectedStoreEntryError: the OPFS repacked store contains an unexpected entry: {entryName}"
  | .storeClosed => "StoreClosedError: the OPFS repacked store is closed"
  | .storeFailed => "StoreFailedError: the OPFS repacked store is poisoned and must be reopened"
  | .error message => s!"Error: {message}"

def formatVersion : Nat := 2
def limitsProfileVersion : Nat := 1
def arenaHeaderBytes : Nat := 8192
def minExtentBytes : Nat := 8192
def maxExtentBytes : Nat := 16777216
def defaultExtentBytes : Nat := 65536
def maxComponentBytes : Nat := 255
def maxPathBytes : Nat := 1024
def maxPathDepth : Nat := 32
/-- How many symbolic links one path resolution may traverse before it reports `ELOOP`. -/
def maxSymlinkHops : Nat := 32
def maxInodes : Nat := 65536
def maxExtentsPerInode : Nat := 1048576
def maxTotalExtents : Nat := 4194304
def maxMetadataBaseReaderBytes : Nat := 67108864
def maxMetadataBaseWriterBytes : Nat := 33554432
def maxFramePayloadBytes : Nat := 1048576
def maxActiveLogBytes : Nat := 16777216
def softActiveLogBytes : Nat := 8388608
def maxActiveLogFrames : Nat := 32768
def softActiveLogFrames : Nat := 16384
def maxU32 : Nat := 4294967295
def maxU64 : Nat := 18446744073709551615
def maxSafeInteger : Nat := 9007199254740991

/-- The extent sizes a store may be created with. -/
def LegalExtentSize (value : Nat) : Prop :=
  minExtentBytes ≤ value ∧ value ≤ maxExtentBytes ∧ value % arenaHeaderBytes = 0

instance (value : Nat) : Decidable (LegalExtentSize value) := by
  unfold LegalExtentSize; infer_instance

def validateExtentSize (value : Nat) : Except StoreError Nat := do
  throwIf (value < minExtentBytes ∨ value > maxExtentBytes ∨ value % arenaHeaderBytes ≠ 0)
    (.typeError s!"extentSize must be an {arenaHeaderBytes}-byte multiple between {minExtentBytes} and {maxExtentBytes}")
  return value

@[simp] theorem validateExtentSize_eq_ok {value v : Nat} :
    validateExtentSize value = .ok v ↔ LegalExtentSize value ∧ value = v := by
  simp [validateExtentSize, LegalExtentSize]

theorem LegalExtentSize.pos {value : Nat} (h : LegalExtentSize value) : 0 < value := by
  have := h.1
  unfold minExtentBytes at this
  omega

def checkedU64 (value : Int) (label : String) : Except StoreError Nat := do
  throwIf (value < 0 ∨ value > maxU64)
    (.storeLimit s!"{label} is outside the unsigned 64-bit range")
  return value.toNat

theorem checkedU64_eq_ok {value : Int} {label : String} {v : Nat} :
    checkedU64 value label = .ok v ↔ value = v ∧ v ≤ maxU64 := by
  simp only [checkedU64, bind_eq_ok, throwIf_eq_ok, pure_eq_ok, exists_const]
  omega

@[simp] theorem checkedU64_nat {value : Nat} {label : String} {v : Nat} :
    checkedU64 value label = .ok v ↔ value = v ∧ v ≤ maxU64 := by
  rw [checkedU64_eq_ok]
  omega

def checkedSafeNumber (value : Int) (label : String) : Except StoreError Nat := do
  let checked ← checkedU64 value label
  throwIf (checked > maxSafeInteger)
    (.storeLimit s!"{label} exceeds JavaScript's safe integer range")
  return checked

def checkedAdd (left right : Int) (label : String) : Except StoreError Nat :=
  checkedU64 (left + right) label

def checkedMultiply (left right : Int) (label : String) : Except StoreError Nat :=
  checkedU64 (left * right) label

theorem checkedSafeNumber_eq_ok {value : Int} {label : String} {v : Nat} :
    checkedSafeNumber value label = .ok v ↔ value = v ∧ v ≤ maxSafeInteger := by
  simp only [checkedSafeNumber, bind_eq_ok, checkedU64_eq_ok, throwIf_eq_ok, pure_eq_ok]
  unfold maxU64 maxSafeInteger
  constructor
  · rintro ⟨a, ⟨rfl, _⟩, _, h, rfl⟩
    exact ⟨rfl, by omega⟩
  · rintro ⟨rfl, h⟩
    exact ⟨v, ⟨rfl, by omega⟩, (), by omega, rfl⟩

end Opfs
