/-
The boots and the destruction of a store.

The classifier, the machines of the store lifecycle with their injected effects, the two boot arms
and the destruction, in the order in which the source awaits them; what the source starts at one
time (the settlement of the marker and the first read of the record) touches different storage, and
is run here one after the other.
-/
import Pgxsinkit.Stores.Disk

namespace Stores

open Crash

/-! ### The classifier -/

structure StoreBootObservations where
  record : Option StoreMetaPhase
  opfs : Option CommitmentNamespace
  idbStoreExists : Bool

inductive StoreBootVerdict
  | resumeDeletion
  | openCommitted
  | repairRecordThenOpenCommitted
  | deleteCandidateAndRebuild
  | bootIdbAuthoritative
  | virginCreate
  deriving DecidableEq, Repr

def classifyStoreBoot (obs : StoreBootObservations) : StoreBootVerdict :=
  let recordless : StoreBootVerdict :=
    if obs.idbStoreExists then .bootIdbAuthoritative else .virginCreate
  match obs.record with
  | some .deleting => .resumeDeletion
  | some .opfsCommitted => .openCommitted
  | some .opfsCandidate => .deleteCandidateAndRebuild
  | some .idbAuthoritative => .bootIdbAuthoritative
  | none =>
    match obs.opfs with
    | none => recordless
    | some opfs =>
      if opfs.sentinelPresent then .repairRecordThenOpenCommitted
      else if opfs.storeDirectoryPresent then .deleteCandidateAndRebuild
      else recordless

/-! ### The machines of the store lifecycle -/

structure CommitmentBarrierEffects where
  strictSyncReturns : Io Unit
  publishSentinel : Io Unit
  setPhase : StoreMetaPhase → Io Unit

def runCommitmentBarrier (effects : CommitmentBarrierEffects) : Io Unit := do
  effects.strictSyncReturns
  effects.publishSentinel
  effects.setPhase .opfsCommitted

structure FreshCandidateEffects where
  writeCandidateRecord : Io Unit
  createStoreDirectory : Io Unit

def beginFreshCandidate (effects : FreshCandidateEffects) : Io Unit := do
  effects.writeCandidateRecord
  effects.createStoreDirectory

structure DestructionEffects where
  setPhase : StoreMetaPhase → Io Unit
  deleteSentinel : Io Unit
  deleteBackendStore : Io Unit
  deleteMetaRecord : Io Unit

def resumeDeletion (effects : DestructionEffects) : Io Unit := do
  effects.deleteSentinel
  effects.deleteBackendStore
  effects.deleteMetaRecord

def runDestruction (effects : DestructionEffects) : Io Unit := do
  effects.setPhase .deleting
  resumeDeletion effects

/-! ### The boots -/

inductive PendingOpfsDeletionOutcome
  | none
  | settled
  | stillPending
  deriving DecidableEq, Repr

/-- Both deletions, `false` when the root rejects in the middle of them. -/
def deleteOpfsSide (opfsApi : Bool) : Io Bool :=
  Prog.tryCatch
    (do
      deleteSentinel opfsApi
      deleteStoreDirectory opfsApi
      pure true)
    fun error => if isOpfsRootUnavailableError error then pure false else Prog.throw error

def settlePendingOpfsDeletion (opfsApi : Bool) : Io PendingOpfsDeletionOutcome := do
  let pending ← readOpfsDeletionPending
  if pending then do
    match ← observeCommitmentNamespace opfsApi with
    | none => pure .stillPending
    | some _ => do
      let reached ← deleteOpfsSide opfsApi
      if reached then do
        clearOpfsDeletionPending
        pure .settled
      else pure .stillPending
  else pure .none

def resolveDeniedBootAuthority (opfsApi : Bool) : Io Bool := do
  let pendingOpfsDeletion ← settlePendingOpfsDeletion opfsApi
  let phase ← readStoreMetaRecord
  if phase = some .opfsCommitted then Prog.throw .committedStoreUnreachable
  else if phase ≠ some .deleting ∧ phase ≠ some .opfsCandidate then pure false
  else do
    match ← observeCommitmentNamespace opfsApi with
    | none =>
      -- the destroy got past its marker step: only the IndexedDB side is left
      if phase = some .deleting ∧ pendingOpfsDeletion = .stillPending then do
        deleteIdbDatabase
        deleteStoreMetaRecord
        pure false
      else Prog.throw .failed
    | some _ => do
      if phase = some .deleting then deleteIdbDatabase else pure ()
      deleteSentinel opfsApi
      deleteStoreDirectory opfsApi
      writeStoreMetaRecord .idbAuthoritative
      pure true

structure StoreBootResolution where
  storageBackend : ResolvedStorageBackend
  verdict : StoreBootVerdict
  deriving DecidableEq, Repr

def finishVirginCreate (hasOpfsSyncAccess : Bool) (verdict : StoreBootVerdict) :
    Io StoreBootResolution :=
  if hasOpfsSyncAccess then do
    beginFreshCandidate {
      writeCandidateRecord := writeStoreMetaRecord .opfsCandidate
      createStoreDirectory := getStoreDirectoryHandle }
    pure ⟨.opfsRepacked, verdict⟩
  else do
    writeStoreMetaRecord .idbAuthoritative
    pure ⟨.idbfs, verdict⟩

/-- `MAX_DELETION_RECLASSIFY` -/
def maxDeletionReclassify : ℕ := 4

/-- The loop of `resolveStoreBoot`, with the iterations it has left. -/
def classifyAndExecute (hasOpfsSyncAccess : Bool) : ℕ → Io StoreBootResolution
  | 0 => Prog.throw .failed
  | iterations + 1 => do
    let record ← readStoreMetaRecord
    -- the warm fast path: no observation is made for a committed record
    if record = some .opfsCommitted ∧ classifyStoreBoot ⟨record, none, false⟩ = .openCommitted then
      pure ⟨.opfsRepacked, classifyStoreBoot ⟨record, none, false⟩⟩
    else do
      let opfsObservation ← observeCommitmentNamespace true
      let idbPresent ← idbStoreExists
      let verdict := classifyStoreBoot ⟨record, opfsObservation, idbPresent⟩
      match verdict with
      | .resumeDeletion => do
        resumeDeletion {
          setPhase := writeStoreMetaRecord
          deleteSentinel := deleteSentinel true
          deleteBackendStore := do
            deleteStoreDirectory true
            deleteIdbDatabase
          deleteMetaRecord := deleteStoreMetaRecord }
        classifyAndExecute hasOpfsSyncAccess iterations
      | .deleteCandidateAndRebuild => do
        deleteSentinel true
        deleteStoreDirectory true
        deleteStoreMetaRecord
        classifyAndExecute hasOpfsSyncAccess iterations
      | .repairRecordThenOpenCommitted => do
        writeStoreMetaRecord .opfsCommitted
        pure ⟨.opfsRepacked, verdict⟩
      | .openCommitted => pure ⟨.opfsRepacked, verdict⟩
      | .bootIdbAuthoritative => do
        if record = none then writeStoreMetaRecord .idbAuthoritative else pure ()
        pure ⟨.idbfs, verdict⟩
      | .virginCreate => finishVirginCreate hasOpfsSyncAccess verdict

def resolveStoreBoot (hasOpfsSyncAccess : Bool) : Io StoreBootResolution := do
  let _ ← settlePendingOpfsDeletion true
  classifyAndExecute hasOpfsSyncAccess maxDeletionReclassify

/-! ### The client's boot -/

def verdictNeedsCommitmentBarrier (resolution : StoreBootResolution) : Bool :=
  resolution.storageBackend == .opfsRepacked &&
    (resolution.verdict == .virginCreate || resolution.verdict == .deleteCandidateAndRebuild)

/-- `createPgwasmClient`, with the gate that it runs again before it mints on IndexedDB. -/
def createPgwasmClient (opfsApi : Bool) : ResolvedStorageBackend → Io ℕ
  | .opfsRepacked => openOpfs
  | .idbfs => do
    let _ ← resolveDeniedBootAuthority opfsApi
    openIdb

def fallbackVirginCandidateToIdb : Io Unit := do
  deleteSentinel true
  deleteStoreDirectory true
  writeStoreMetaRecord .idbAuthoritative

/-- The home an engine boots in: with OPFS sync access, or without. -/
inductive EngineHome
  | granted
  | denied (opfsApi : Bool)
  deriving DecidableEq, Repr

structure OwnedStore where
  backend : ResolvedStorageBackend
  store : ℕ
  commitmentBarrierPending : Bool
  deriving DecidableEq, Repr

def openOwnedStore : EngineHome → Io OwnedStore
  | .denied opfsApi => do
    let _ ← resolveDeniedBootAuthority opfsApi
    let store ← createPgwasmClient opfsApi .idbfs
    pure ⟨.idbfs, store, false⟩
  | .granted => do
    let fresh ← resolveStoreBoot true
    if verdictNeedsCommitmentBarrier fresh then
      Prog.tryCatch
        (do
          let store ← createPgwasmClient true .opfsRepacked
          pure ⟨.opfsRepacked, store, true⟩)
        fun _ => do
          fallbackVirginCandidateToIdb
          let store ← createPgwasmClient true .idbfs
          pure ⟨.idbfs, store, false⟩
    else do
      let store ← createPgwasmClient true fresh.storageBackend
      pure ⟨fresh.storageBackend, store, false⟩

/-- The boot of a client up to the moment it is handed out. -/
def createSyncClient (home : EngineHome) : Io Unit := do
  let owned ← openOwnedStore home
  if owned.commitmentBarrierPending then
    runCommitmentBarrier {
      strictSyncReturns := performs id
      publishSentinel := publishSentinel
      setPhase := writeStoreMetaRecord }
  else pure ()
  expose owned.backend owned.store

/-! ### The destruction -/

def deleteOpfsOrRecordPending (deleteOpfs : Io Unit) : Io Unit :=
  Prog.tryCatch deleteOpfs fun error =>
    if isOpfsRootUnavailableError error then writeOpfsDeletionPending else Prog.throw error

def createStoreDestructionEffects (opfsApi : Bool) : DestructionEffects where
  setPhase phase := performs fun s => { s with record := some phase }.authorize
  deleteSentinel := deleteOpfsOrRecordPending (deleteSentinel opfsApi)
  deleteBackendStore := do
    deleteOpfsOrRecordPending (deleteStoreDirectory opfsApi)
    deleteIdbDatabase
  deleteMetaRecord := deleteStoreMetaRecord

/-- The ownership-lag retries of `runStoreDestruction`. -/
def retryOwnership (delete : Io Unit) : ℕ → Io Unit
  | 0 => delete
  | retries + 1 => Prog.tryCatch delete fun error =>
    if isOwnershipError error then retryOwnership delete retries else Prog.throw error

def maxOwnershipRetries : ℕ := 5

def runStoreDestruction (effects : DestructionEffects) : Io Unit :=
  runDestruction { effects with
    deleteBackendStore := retryOwnership effects.deleteBackendStore maxOwnershipRetries }

/-! ### The life of a store path -/

inductive StoreEvent
  | boot (home : EngineHome) (answers : List Answer)
  | destroy (opfsApi : Bool) (answers : List Answer)
  deriving DecidableEq, Repr

/-- A context does one thing to the store, as far as its answers go. -/
def Disk.step (s : Disk) : StoreEvent → Option Disk
  | .boot home answers => some (createSyncClient home answers s).state
  | .destroy opfsApi answers =>
    some (runStoreDestruction (createStoreDestructionEffects opfsApi) answers s).state

end Stores
