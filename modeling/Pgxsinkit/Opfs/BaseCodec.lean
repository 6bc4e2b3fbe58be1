/-
The metadata base on disk (`core/codec.ts`).

A base is an 80-byte header and the payload: the inodes by id, the available extents and
the quarantine in order.  Names are ordered by their code points.
-/
import Pgxsinkit.Opfs.Headers

namespace Opfs

open Bytes Checked Unicode

/-! ### Canonical order -/

/-- `name.codePointAt(index)` from every index the loop of `compareUtf8Names` visits. -/
def codePoints : JsString → List Nat
  | [] => []
  | u :: rest =>
    if isHigh u then
      match rest with
      | [] => [u.toNat]
      | v :: rest' =>
        if isLow v then
          (0x10000 + (u.toNat - 0xd800) * 0x400 + (v.toNat - 0xdc00)) :: codePoints rest'
        else u.toNat :: codePoints (v :: rest')
    else u.toNat :: codePoints rest

/-- The loop of `compareUtf8Names`, which falls back on the difference of the lengths. -/
def comparePoints (lengths : Int) : List Nat → List Nat → Int
  | leftPoint :: left, rightPoint :: right =>
    if leftPoint ≠ rightPoint then (leftPoint : Int) - rightPoint
    else comparePoints lengths left right
  | _, _ => lengths

def compareUtf8Names (left right : JsString) : Int :=
  comparePoints ((left.length : Int) - right.length) (codePoints left) (codePoints right)

def compareBigint (left right : Nat) : Int :=
  if left < right then -1 else if left > right then 1 else 0

/-- Is some value behind a greater one? -/
def outOfOrder {α : Type} (compare : α → α → Int) : List α → Bool
  | a :: b :: rest => decide (compare a b > 0) || outOfOrder compare (b :: rest)
  | _ => false

/-- `values.sort(compare)` is stable. -/
def sortIfNeeded {α : Type} (compare : α → α → Int) (values : List α) : List α :=
  if outOfOrder compare values then values.mergeSort fun a b => decide (compare a b ≤ 0)
  else values

def sortedChildren (children : OrdMap JsString Nat) : List (JsString × Nat) :=
  sortIfNeeded (fun left right => compareUtf8Names left.1 right.1) children.entries

def sortedInodes (state : VfsState) : List Inode :=
  sortIfNeeded (fun left right => compareBigint left.id right.id)
    (state.inodes.entries.map Prod.snd)

def sortedAvailable (state : VfsState) : List Nat :=
  sortIfNeeded compareBigint state.allocator.available.items

def sortedQuarantine (state : VfsState) : List (Nat × Option Nat) :=
  sortIfNeeded (fun left right => compareBigint left.1 right.1) state.allocator.quarantine.entries

/-! ### Encoding -/

def inodeKindDirectory : Nat := 0
def inodeKindFile : Nat := 1
def inodeKindSymlink : Nat := 2

section writers

open BinaryWriter

def inodeKind : InodeBody → Nat
  | .directory _ => inodeKindDirectory
  | .file _ _ => inodeKindFile
  | .symlink _ => inodeKindSymlink

def writeChild (child : JsString × Nat) : BinaryWriter → Except StoreError BinaryWriter :=
  validatedString (textEncode child.1) >=> validatedU64 child.2

def writeBody : InodeBody → BinaryWriter → Except StoreError BinaryWriter
  | .directory children =>
    u32 (sortedChildren children).length >=> writeAll writeChild (sortedChildren children)
  | .symlink target => symlinkTarget target
  | .file size extents =>
    validatedU64 size >=> u32 extents.length >=> writeAll validatedU64 extents

def writeInode (inode : Inode) : BinaryWriter → Except StoreError BinaryWriter :=
  validatedU64 inode.id >=> u8 (inodeKind inode.body) >=> u32 inode.mode >=>
    validatedU64 inode.atimeMs >=> validatedU64 inode.mtimeMs >=> validatedU64 inode.ctimeMs >=>
      writeBody inode.body

def writeQuarantined (entry : Nat × Option Nat) : BinaryWriter → Except StoreError BinaryWriter :=
  validatedU64 entry.1 >=> validatedU64 (entry.2.getD 0)

def writePayload (state : VfsState) : BinaryWriter → Except StoreError BinaryWriter :=
  validatedU64 state.allocator.totalExtents >=> validatedU64 state.nextInodeId >=>
    u32 state.inodes.size >=> writeAll writeInode (sortedInodes state) >=>
      writeAll validatedU64 (sortedAvailable state) >=>
        writeAll writeQuarantined (sortedQuarantine state)

def encodeMetadataPayload (state : VfsState) (length prefixBytes : Nat) :
    Except StoreError (List UInt8) := do
  throwIf (length > maxMetadataBaseWriterBytes)
    (.storeLimit s!"metadata base payload exceeds {maxMetadataBaseWriterBytes} bytes")
  create (prefixBytes + length) prefixBytes >>= writePayload state >>= finish

end writers

def encodeValidatedMetadataBase (state : VfsState) : Except StoreError (List UInt8) := do
  let baseEnd := metadataHeaderBytes + state.basePayloadBytes
  let bytes ← encodeMetadataPayload state state.basePayloadBytes metadataHeaderBytes
  let bytes := overwrite bytes 0 metadataMagic
  let bytes := setUint bytes 8 4 formatVersion
  let bytes := setUint bytes 12 4 limitsProfileVersion
  let bytes := setUint bytes 16 8 state.generation
  let bytes := setUint bytes 24 4 state.extentSize
  let bytes := setUint bytes 28 1 (metadataFileCode state.activeMetadataFile)
  let bytes := setUint bytes 32 8 state.rootInodeId
  let bytes := setUint bytes 40 4 state.basePayloadBytes
  let bytes := setUint bytes 44 4 state.allocator.available.size
  let bytes := setUint bytes 48 4 state.allocator.quarantine.size
  let bytes := setUint bytes 56 8 baseEnd
  return setChecksum bytes metadataHeaderChecksumOffset

def encodeMetadataBase (state : VfsState) : Except StoreError (List UInt8) := do
  validateState state
  encodeValidatedMetadataBase state

/-! ### The header -/

structure MetadataBaseHeader where
  formatVersion : Nat
  limitsProfileVersion : Nat
  generation : Nat
  extentSize : Nat
  metadataFileCode : Nat
  rootInodeId : Nat
  payloadLength : Nat
  availableCount : Nat
  quarantineCount : Nat
  baseEnd : Nat
  deriving DecidableEq

def inspectMetadataBaseHeader (header : List UInt8) : Except StoreError MetadataBaseHeader := do
  throwIf (header.length ≠ metadataHeaderBytes)
    (.corruptStore "metadata base header has the wrong length")
  requireMagic header metadataMagic "metadata base"
  requireZero header 29 32 "metadata base"
  requireZero header 52 56 "metadata base"
  requireZero header 68 80 "metadata base"
  let payloadLength := getUint header 40 4
  throwIf (payloadLength > maxMetadataBaseReaderBytes)
    (.corruptStore "metadata base payload declaration exceeds the reader limit")
  let baseEnd := getUint header 56 8
  throwIf (baseEnd ≠ metadataHeaderBytes + payloadLength)
    (.corruptStore "metadata base end offset is inconsistent")
  return {
    formatVersion := getUint header 8 4
    limitsProfileVersion := getUint header 12 4
    generation := getUint header 16 8
    extentSize := getUint header 24 4
    metadataFileCode := getUint header 28 1
    rootInodeId := getUint header 32 8
    payloadLength
    availableCount := getUint header 44 4
    quarantineCount := getUint header 48 4
    baseEnd }

/-! ### Decoding -/

section readers

open BinaryReader

/-- The children read so far and the name of the last one. -/
def readChild (acc : OrdMap JsString Nat × Option JsString) :
    BinaryReader (OrdMap JsString Nat × Option JsString) := do
  let name ← string
  Reader.rejectIf (∃ previous ∈ acc.2, compareUtf8Names previous name ≥ 0)
    (.corruptStore "directory children are not in canonical order")
  let inodeId ← u64
  return (acc.1.set name inodeId, some name)

def readDirectoryBody : BinaryReader InodeBody := do
  let childCount ← readBoundedCount maxInodes "directory child"
  let (children, _) ← Reader.fold readChild childCount (.empty, none)
  return .directory children

def readFileBody : BinaryReader InodeBody := do
  let size ← u64
  let extentCount ← readBoundedCount maxExtentsPerInode "file extent"
  let extents ← Reader.fold (fun extents => do
    let extentId ← u64
    return extents ++ [extentId]) extentCount []
  return .file size extents

def readBody (kind : Nat) : BinaryReader InodeBody :=
  if kind = inodeKindDirectory then readDirectoryBody
  else if kind = inodeKindFile then readFileBody
  else if kind = inodeKindSymlink then InodeBody.symlink <$> symlinkTarget
  else throw (.corruptStore "inode type is invalid")

def readInode : BinaryReader Inode := do
  let id ← u64
  let kind ← u8
  let mode ← u32
  let atimeMs ← u64
  let mtimeMs ← u64
  let ctimeMs ← u64
  let body ← readBody kind
  return ⟨id, mode, atimeMs, mtimeMs, ctimeMs, body⟩

/-- What the loop over the inodes has read. -/
structure InodesAcc where
  inodes : OrdMap Nat Inode
  ownedBy : OrdMap Nat Nat
  previousInodeId : Option Nat

def ownDecoded (inodeId : Nat) (ownedBy : OrdMap Nat Nat) (extentId : Nat) :
    Except StoreError (OrdMap Nat Nat) := do
  throwIf (ownedBy.has extentId = true)
    (.corruptStore "metadata contains duplicate extent ownership")
  return ownedBy.set extentId inodeId

def readNextInode (acc : InodesAcc) : BinaryReader InodesAcc := do
  let inode ← readInode
  Reader.rejectIf (∃ previous ∈ acc.previousInodeId, inode.id ≤ previous)
    (.corruptStore "inodes are not in canonical order")
  let ownedBy ← liftM (foldChecked (ownDecoded inode.id) acc.ownedBy inode.body.extents)
  return ⟨acc.inodes.set inode.id inode, ownedBy, some inode.id⟩

def readAvailable (acc : IndexedExtentSet × Option Nat) :
    BinaryReader (IndexedExtentSet × Option Nat) := do
  let extentId ← u64
  Reader.rejectIf (∃ previous ∈ acc.2, extentId ≤ previous)
    (.corruptStore "available extents are not in canonical order")
  return (acc.1.add extentId, some extentId)

def readQuarantined (acc : OrdMap Nat (Option Nat) × Option Nat) :
    BinaryReader (OrdMap Nat (Option Nat) × Option Nat) := do
  let extentId ← u64
  let encodedGeneration ← u64
  Reader.rejectIf (∃ previous ∈ acc.2, extentId ≤ previous)
    (.corruptStore "quarantine extents are not in canonical order")
  return (acc.1.set extentId (if encodedGeneration = 0 then none else some encodedGeneration),
    some extentId)

/-- What the payload holds. -/
structure DecodedPayload where
  totalExtents : Nat
  nextInodeId : Nat
  inodes : OrdMap Nat Inode
  ownedBy : OrdMap Nat Nat
  available : IndexedExtentSet
  quarantine : OrdMap Nat (Option Nat)

def readPayload (availableCount quarantineCount : Nat) : BinaryReader DecodedPayload := do
  let totalExtents ← u64
  Reader.rejectIf (totalExtents > maxTotalExtents)
    (.corruptStore "metadata total extent count exceeds the extent limit")
  let nextInodeId ← u64
  let inodeCount ← readBoundedCount maxInodes "inode"
  let acc ← Reader.fold readNextInode inodeCount ⟨.empty, .empty, none⟩
  let (available, _) ← Reader.fold readAvailable availableCount (.empty, none)
  let (quarantine, _) ← Reader.fold readQuarantined quarantineCount (.empty, none)
  return ⟨totalExtents, nextInodeId, acc.inodes, acc.ownedBy, available, quarantine⟩

end readers

structure DecodedMetadataBase where
  state : VfsState
  payloadBytes : Nat
  baseEnd : Nat
  baseDigest : Nat

def adoptChild (parentId : Nat) (parentByInode : OrdMap Nat ParentEntry)
    (child : JsString × Nat) : Except StoreError (OrdMap Nat ParentEntry) := do
  throwIf (parentByInode.has child.2 = true)
    (.corruptStore "metadata inode has multiple directory owners")
  return parentByInode.set child.2 ⟨parentId, child.1⟩

/-- The parent index of the decoded inodes. -/
def indexParents (inodes : OrdMap Nat Inode) : Except StoreError (OrdMap Nat ParentEntry) :=
  foldChecked (fun parentByInode (entry : Nat × Inode) =>
    foldChecked (adoptChild entry.2.id) parentByInode entry.2.body.children.entries)
    .empty inodes.entries

/-- The part of `decodeMetadataBase` under its `try`. -/
def decodeState (header : MetadataBaseHeader) (activeMetadataFile : MetadataFile)
    (payload : List UInt8) : Except StoreError VfsState := do
  let decoded ← BinaryReader.readAll
    (readPayload header.availableCount header.quarantineCount) payload
  let parentByInode ← indexParents decoded.inodes
  let state : VfsState :=
    { generation := header.generation
      nextInodeId := decoded.nextInodeId
      rootInodeId := header.rootInodeId
      extentSize := header.extentSize
      activeMetadataFile
      retainedGenerations :=
        RetainedGenerations.set ⟨none, none⟩ activeMetadataFile (some header.generation)
      basePayloadBytes := header.payloadLength
      inodes := decoded.inodes
      parentByInode
      allocator :=
        ⟨decoded.totalExtents, decoded.ownedBy, decoded.available, decoded.quarantine⟩ }
  validateState state
  return state

/-- `if (cause instanceof CorruptStoreError) throw cause;`, else the given message. -/
def corruptOr {α : Type} (message : String) : Except StoreError α → Except StoreError α
  | .ok value => .ok value
  | .error (.corruptStore cause) => .error (.corruptStore cause)
  | .error cause => .error (.corruptStore s!"{message}: {cause.describe}")

def decodeMetadataBase (bytes : List UInt8) : Except StoreError DecodedMetadataBase := do
  throwIf (bytes.length < metadataHeaderBytes)
    (.corruptStore "metadata base header is truncated")
  let inspected ← inspectMetadataBaseHeader (slice bytes 0 metadataHeaderBytes)
  throwIf (bytes.length ≠ inspected.baseEnd)
    (.corruptStore "metadata base end offset is inconsistent")
  requireChecksum bytes metadataHeaderChecksumOffset "metadata base"
  requireCurrentIdentity inspected.formatVersion inspected.limitsProfileVersion
  throwIf (inspected.generation = 0) (.corruptStore "metadata generation must be positive")
  checkExtentSize inspected.extentSize "metadata base extent size is invalid"
  let activeMetadataFile ← decodeMetadataFile inspected.metadataFileCode
  throwIf (inspected.availableCount > maxTotalExtents ∨ inspected.quarantineCount > maxTotalExtents)
    (.corruptStore "metadata allocator count exceeds the extent limit")
  let state ← corruptOr "metadata base is semantically invalid"
    (decodeState inspected activeMetadataFile (bytes.drop metadataHeaderBytes))
  return ⟨state, inspected.payloadLength, inspected.baseEnd, (crc32 bytes).toNat⟩

def metadataBaseDigest (bytes : List UInt8) : Nat := (crc32 bytes).toNat

end Opfs
