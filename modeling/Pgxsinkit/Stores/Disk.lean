/-
What a browser keeps of one store, and the effects that read and change it.

A store path owns a phase record and a pending-deletion marker in IndexedDB, a sentinel file and a
directory in OPFS, and one database in each backend; the contents of a database are a number, fresh
for every mint.  The last fields of `Disk` are no storage: they say which store a client was given,
which stores a destruction was authorized for, and what was opened when.
-/
import Pgxsinkit.Lib.Crash

namespace Stores

open Crash

inductive StoreMetaPhase
  | idbAuthoritative
  | opfsCandidate
  | opfsCommitted
  | deleting
  deriving DecidableEq, Repr

inductive ResolvedStorageBackend
  | opfsRepacked
  | idbfs
  deriving DecidableEq, Repr

structure Opening where
  backend : ResolvedStorageBackend
  store : ℕ
  /-- the store that was exposed when this one was opened, and what had been destroyed by then -/
  exposed : Option (ResolvedStorageBackend × ℕ)
  destroyed : List ℕ
  deriving DecidableEq, Repr

structure Disk where
  record : Option StoreMetaPhase
  opfsDeletionPending : Bool
  sentinel : Bool
  /-- an empty directory is `some none` -/
  storeDirectory : Option (Option ℕ)
  idbDatabase : Option ℕ
  minted : ℕ
  exposed : Option (ResolvedStorageBackend × ℕ)
  destroyed : List ℕ
  openings : List Opening
  deriving DecidableEq, Repr

/-- A browser that never saw the store. -/
def Disk.virgin : Disk where
  record := none
  opfsDeletionPending := false
  sentinel := false
  storeDirectory := none
  idbDatabase := none
  minted := 0
  exposed := none
  destroyed := []
  openings := []

/-- What the environment does about one effect. -/
inductive Answer
  | ok
  /-- `navigator.storage.getDirectory()` rejects -/
  | rootRejects
  /-- refused under the handles of a live owner -/
  | owned
  | fails
  deriving DecidableEq, Repr

inductive StoreError
  | opfsRootUnavailable
  | ownership
  | committedStoreUnreachable
  | failed
  deriving DecidableEq, Repr

abbrev Io (α : Type) : Type := Prog Answer Disk StoreError α

def isOpfsRootUnavailableError (error : StoreError) : Bool := error == .opfsRootUnavailable

def isOwnershipError (error : StoreError) : Bool := error == .ownership

/-- A write that happens as a whole or not at all. -/
def performs (f : Disk → Disk) : Io Unit := Prog.effect fun answer s =>
  match answer with
  | .ok => (.ok (), f s)
  | .owned => (.error .ownership, s)
  | .rootRejects | .fails => (.error .failed, s)

def reads {α : Type} (f : Disk → α) : Io α := Prog.effect fun answer s =>
  match answer with
  | .ok => (.ok (f s), s)
  | .owned => (.error .ownership, s)
  | .rootRejects | .fails => (.error .failed, s)

/-! ### opfs-effects.ts

`opfsApi` is false where the context has no `navigator.storage.getDirectory` at all. -/

/-- The walk of a deletion, which tells a root that rejects from every other failure. -/
def removes (f : Disk → Disk) : Io Unit := Prog.effect fun answer s =>
  match answer with
  | .ok => (.ok (), f s)
  | .rootRejects => (.error .opfsRootUnavailable, s)
  | .owned => (.error .ownership, s)
  | .fails => (.error .failed, s)

def deleteSentinel (opfsApi : Bool) : Io Unit :=
  if opfsApi then removes fun s => { s with sentinel := false } else pure ()

def deleteStoreDirectory (opfsApi : Bool) : Io Unit :=
  if opfsApi then removes fun s => { s with storeDirectory := none } else pure ()

structure CommitmentNamespace where
  sentinelPresent : Bool
  storeDirectoryPresent : Bool
  deriving DecidableEq, Repr

/-- `none` is "unobservable"; this effect never throws. -/
def observeCommitmentNamespace (opfsApi : Bool) : Io (Option CommitmentNamespace) :=
  if opfsApi then Prog.effect fun answer s =>
    match answer with
    | .ok => (.ok (some ⟨s.sentinel, s.storeDirectory.isSome⟩), s)
    | .rootRejects | .owned | .fails => (.ok none, s)
  else pure none

def publishSentinel : Io Unit := performs fun s => { s with sentinel := true }

/-- Create-if-absent. -/
def getStoreDirectoryHandle : Io Unit :=
  performs fun s => { s with storeDirectory := some s.storeDirectory.join }

/-! ### store-meta.ts -/

def readStoreMetaRecord : Io (Option StoreMetaPhase) := reads (·.record)

def writeStoreMetaRecord (phase : StoreMetaPhase) : Io Unit :=
  performs fun s => { s with record := some phase }

def deleteStoreMetaRecord : Io Unit := performs fun s => { s with record := none }

def idbStoreExists : Io Bool := reads (·.idbDatabase.isSome)

def readOpfsDeletionPending : Io Bool := reads (·.opfsDeletionPending)

def writeOpfsDeletionPending : Io Unit :=
  performs fun s => { s with opfsDeletionPending := true }

def clearOpfsDeletionPending : Io Unit :=
  performs fun s => { s with opfsDeletionPending := false }

def deleteIdbDatabase : Io Unit := performs fun s => { s with idbDatabase := none }

/-! ### Opening, exposing, destroying -/

def Disk.opened (s : Disk) (backend : ResolvedStorageBackend) (store : ℕ) : Disk :=
  { s with
    minted := max s.minted (store + 1)
    openings := ⟨backend, store, s.exposed, s.destroyed⟩ :: s.openings }

/-- The backend opens what is there, and creates a database where there is none. -/
def openOpfs : Io ℕ := Prog.effect fun answer s =>
  match answer with
  | .ok =>
    let store := s.storeDirectory.join.getD s.minted
    (.ok store, { s with storeDirectory := some (some store) }.opened .opfsRepacked store)
  | .rootRejects | .owned | .fails => (.error .failed, s)

def openIdb : Io ℕ := Prog.effect fun answer s =>
  match answer with
  | .ok =>
    let store := s.idbDatabase.getD s.minted
    (.ok store, { s with idbDatabase := some store }.opened .idbfs store)
  | .rootRejects | .owned | .fails => (.error .failed, s)

/-- The client is handed out. -/
def expose (backend : ResolvedStorageBackend) (store : ℕ) : Io Unit :=
  Prog.effect fun _ s => (.ok (), { s with exposed := some (backend, store) })

/-- The destruction of all that is stored under the path becomes the user's decision. -/
def Disk.authorize (s : Disk) : Disk :=
  { s with
    exposed := none
    destroyed := s.storeDirectory.join.toList ++ s.idbDatabase.toList ++ s.destroyed }

end Stores
