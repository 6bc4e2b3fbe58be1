/-
The mutation journal: its status machine, its rows, and the statements on it.

The journals of all tables are one list of rows, each with the key of its table; a statement
of the source names one journal.  Identifiers are numbers.  A row has the columns that the
statements and queries modelled here read or write.
-/
import Mathlib

namespace Mutation

/-! ### The status machine -/

inductive MutationStatus
  | pending
  | sending
  | acked
  | failed
  | quarantined
  | conflicted
  | rejected
  deriving DecidableEq, Repr

/-- `MUTATION_TRANSITIONS` -/
def mutationTransitions : MutationStatus → List MutationStatus
  | .pending => [.sending, .quarantined]
  | .sending => [.acked, .failed, .quarantined, .conflicted, .rejected, .pending]
  | .failed => [.pending, .quarantined]
  | .quarantined => []
  | .conflicted => []
  | .rejected => []
  | .acked => []

def isValidMutationTransition (source target : MutationStatus) : Bool :=
  (mutationTransitions source).contains target

namespace MutationStatus

def isTerminal (status : MutationStatus) : Bool := (mutationTransitions status).isEmpty

/-- A row that is to be sent: what the two reads of the flush select. -/
def isEligible (status : MutationStatus) : Bool := status = .pending || status = .failed

/-- A row that blocks the later ones of its entity. -/
def isOwed (status : MutationStatus) : Bool :=
  [pending, failed, sending, quarantined].contains status

end MutationStatus

/-! ### Rows -/

/-- The values of `write_mode` that keep a row off the optimistic flush. -/
inductive WriteMode
  | optimistic
  | pessimistic
  | pessimisticBlind
  deriving DecidableEq, Repr

structure JournalRow where
  mutationId : ℕ
  tableKey : ℕ
  entityKey : ℕ
  mutationSeq : ℕ
  status : MutationStatus
  writeMode : Option WriteMode
  writeUnit : Option ℕ
  attemptCount : ℕ
  nextRetryAtUs : Option ℕ
  enqueuedAtUs : ℕ
  deriving DecidableEq, Repr

namespace JournalRow

/-- `COALESCE(write_mode, '') LIKE 'pessimistic%'` -/
def isPessimistic (row : JournalRow) : Bool :=
  row.writeMode = some .pessimistic || row.writeMode = some .pessimisticBlind

/-- The rows of one entity. -/
def sameEntity (row other : JournalRow) : Bool :=
  row.tableKey = other.tableKey && row.entityKey = other.entityKey

/-- The row holds back `other`: an earlier mutation of its entity that is still owed. -/
def holdsBack (row other : JournalRow) : Bool :=
  row.sameEntity other && row.mutationSeq < other.mutationSeq && row.status.isOwed

end JournalRow

/-! ### The reads of a flush -/

/-- `ORDER BY enqueued_at_us, mutation_seq` -/
def flushOrder (row other : JournalRow) : Prop :=
  row.enqueuedAtUs < other.enqueuedAtUs ∨
    row.enqueuedAtUs = other.enqueuedAtUs ∧ row.mutationSeq ≤ other.mutationSeq

instance : DecidableRel flushOrder := fun _ _ => inferInstanceAs (Decidable (_ ∨ _))

def isSendEligible (nowUs : ℕ) (journal : List JournalRow) (row : JournalRow) : Bool :=
  row.status.isEligible && !row.isPessimistic && row.nextRetryAtUs.getD 0 ≤ nowUs &&
    !journal.any fun earlier => earlier.holdsBack row

def readPendingBatchRows (tables : List ℕ) (nowUs batchSize : ℕ) (journal : List JournalRow) :
    List JournalRow :=
  ((journal.filter fun row => tables.contains row.tableKey &&
    isSendEligible nowUs journal row).insertionSort flushOrder).take batchSize

/-- `ORDER BY mutation_seq`, without a gate of its own. -/
def readUnitPendingRows (unitId : ℕ) (journal : List JournalRow) : List JournalRow :=
  (journal.filter fun row => row.writeUnit = some unitId && row.status.isEligible).insertionSort
    fun row other => row.mutationSeq ≤ other.mutationSeq

/-! ### The statements -/

structure MutationStatusUpdate where
  mutationId : ℕ
  status : MutationStatus
  attemptCount : ℕ
  nextRetryAtUs : Option ℕ
  deriving DecidableEq, Repr

/-- The keys of the journals: `mutation_id`, and `mutation_seq` in each of them. -/
def Keyed (journal : List JournalRow) : Prop :=
  (journal.map JournalRow.mutationId).Nodup ∧
    (journal.map fun row => (row.tableKey, row.mutationSeq)).Nodup

instance (journal : List JournalRow) : Decidable (Keyed journal) :=
  inferInstanceAs (Decidable (_ ∧ _))

/-- What the local store keeps of the journals: their rows, and the recovery marker, `none`
while it is absent. -/
structure LocalStore where
  journal : List JournalRow
  recoveryRequired : Option Bool
  keyed : Keyed journal
  deriving DecidableEq

inductive JournalStatement
  | insert (rows : List JournalRow)
  /-- `execMutationStatusUpdates` on one journal -/
  | statusUpdates (table : ℕ) (updates : List MutationStatusUpdate)
  | retryFailed (table nowUs : ℕ)
  | recoverSending (table nowUs : ℕ)
  | quarantineRecovered (table : ℕ)
  /-- what a reconcile or a discard deletes: rows of one status, some of them -/
  | delete (table : ℕ) (status : MutationStatus) (mutationIds : List ℕ)
  | writeRecoveryRequired (required : Bool)
  | clearRecoveryMarkerIfSettled
  deriving DecidableEq, Repr

namespace LocalStore

variable (store : LocalStore)

def hasSending : Bool := store.journal.any fun row => row.status = .sending

/-- The status of a mutation, while it has a row. -/
def statusOf (mutationId : ℕ) : Option MutationStatus :=
  (store.journal.find? fun row => row.mutationId = mutationId).map JournalRow.status

end LocalStore

/-! ### What an UPDATE sets -/

namespace JournalRow

/-- The columns that a status change writes. -/
def setStatus (row : JournalRow) (status : MutationStatus) (attemptCount : ℕ)
    (nextRetryAtUs : Option ℕ) : JournalRow :=
  { row with status := status, attemptCount := attemptCount, nextRetryAtUs := nextRetryAtUs }

/-- `UPDATE … SET status = updates.status … FROM (VALUES …) AS updates` -/
def applyUpdates (updates : List MutationStatusUpdate) (row : JournalRow) : JournalRow :=
  match updates.find? fun update => update.mutationId = row.mutationId with
  | none => row
  | some update => row.setStatus update.status update.attemptCount update.nextRetryAtUs

/-- An UPDATE of the rows of one journal in some statuses. -/
def moveStatus (table : ℕ) (sources : List MutationStatus) (target : MutationStatus)
    (nextRetryAtUs : Option ℕ) (row : JournalRow) : JournalRow :=
  if row.tableKey = table ∧ row.status ∈ sources then
    row.setStatus target row.attemptCount nextRetryAtUs
  else row

/-- The rows are one mutation, which only a status change tells apart. -/
def SameMutation (row other : JournalRow) : Prop :=
  row.mutationId = other.mutationId ∧ row.tableKey = other.tableKey ∧
    row.entityKey = other.entityKey ∧ row.mutationSeq = other.mutationSeq

theorem SameMutation.refl (row : JournalRow) : row.SameMutation row := ⟨rfl, rfl, rfl, rfl⟩

theorem sameMutation_setStatus (row : JournalRow) (status : MutationStatus) (attemptCount : ℕ)
    (nextRetryAtUs : Option ℕ) :
    (row.setStatus status attemptCount nextRetryAtUs).SameMutation row := ⟨rfl, rfl, rfl, rfl⟩

theorem sameMutation_applyUpdates (updates : List MutationStatusUpdate) (row : JournalRow) :
    (row.applyUpdates updates).SameMutation row := by
  unfold applyUpdates
  split
  · exact SameMutation.refl row
  · exact sameMutation_setStatus ..

theorem sameMutation_moveStatus (table : ℕ) (sources : List MutationStatus)
    (target : MutationStatus) (nextRetryAtUs : Option ℕ) (row : JournalRow) :
    (row.moveStatus table sources target nextRetryAtUs).SameMutation row := by
  unfold moveStatus
  split
  · exact sameMutation_setStatus ..
  · exact SameMutation.refl row

theorem moveStatus_of_status {table : ℕ} {sources : List MutationStatus}
    {target : MutationStatus} {nextRetryAtUs : Option ℕ} {row : JournalRow}
    (h : row.status ∉ sources) : row.moveStatus table sources target nextRetryAtUs = row :=
  if_neg fun hm => h hm.2

theorem moveStatus_of_table {table : ℕ} {sources : List MutationStatus}
    {target : MutationStatus} {nextRetryAtUs : Option ℕ} {row : JournalRow}
    (h : row.tableKey ≠ table) : row.moveStatus table sources target nextRetryAtUs = row :=
  if_neg fun hm => h hm.1

theorem moveStatus_moved {table : ℕ} {sources : List MutationStatus}
    {target : MutationStatus} {nextRetryAtUs : Option ℕ} {row : JournalRow}
    (ht : row.tableKey = table) (hs : row.status ∈ sources) :
    (row.moveStatus table sources target nextRetryAtUs).status = target := by
  rw [moveStatus, if_pos ⟨ht, hs⟩]
  rfl

end JournalRow

theorem Keyed.map {journal : List JournalRow} (h : Keyed journal) {set : JournalRow → JournalRow}
    (hset : ∀ row, (set row).SameMutation row) : Keyed (journal.map set) := by
  have hid : JournalRow.mutationId ∘ set = JournalRow.mutationId :=
    funext fun row => (hset row).1
  have hseq : (fun row : JournalRow => (row.tableKey, row.mutationSeq)) ∘ set =
      fun row => (row.tableKey, row.mutationSeq) :=
    funext fun row => Prod.ext (hset row).2.1 (hset row).2.2.2
  rw [Keyed, List.map_map, List.map_map, hid, hseq]
  exact h

theorem Keyed.singleton (row : JournalRow) : Keyed [row] :=
  ⟨List.nodup_singleton _, List.nodup_singleton _⟩

theorem Keyed.sublist {journal journal' : List JournalRow} (h : Keyed journal)
    (hs : journal'.Sublist journal) : Keyed journal' :=
  ⟨h.1.sublist (hs.map _), h.2.sublist (hs.map _)⟩

namespace LocalStore

def updateRows (store : LocalStore) (set : JournalRow → JournalRow)
    (hset : ∀ row, (set row).SameMutation row) : LocalStore :=
  ⟨store.journal.map set, store.recoveryRequired, store.keyed.map hset⟩

def moveStatus (store : LocalStore) (table : ℕ) (sources : List MutationStatus)
    (target : MutationStatus) (nextRetryAtUs : Option ℕ) : LocalStore :=
  store.updateRows (JournalRow.moveStatus table sources target nextRetryAtUs)
    (JournalRow.sameMutation_moveStatus table sources target nextRetryAtUs)

end LocalStore

namespace JournalStatement

/-- The rows of one journal that the updates name. -/
def applyUpdatesIn (table : ℕ) (updates : List MutationStatusUpdate) (row : JournalRow) :
    JournalRow :=
  if row.tableKey = table then row.applyUpdates updates else row

theorem sameMutation_applyUpdatesIn (table : ℕ) (updates : List MutationStatusUpdate)
    (row : JournalRow) : (applyUpdatesIn table updates row).SameMutation row := by
  unfold applyUpdatesIn
  split
  · exact JournalRow.sameMutation_applyUpdates ..
  · exact JournalRow.SameMutation.refl row

/-- A row that a DELETE leaves. -/
def survives (table : ℕ) (status : MutationStatus) (mutationIds : List ℕ) (row : JournalRow) :
    Bool :=
  !(row.tableKey = table && row.status = status && mutationIds.contains row.mutationId)

/-- The statement on a store, `none` when it fails: an INSERT against a key. -/
def exec (store : LocalStore) : JournalStatement → Option LocalStore
  | insert rows =>
    if h : Keyed (store.journal ++ rows) then some ⟨store.journal ++ rows, store.recoveryRequired, h⟩
    else none
  | statusUpdates table updates =>
    some (store.updateRows (applyUpdatesIn table updates)
      (sameMutation_applyUpdatesIn table updates))
  | retryFailed table nowUs => some (store.moveStatus table [.failed] .pending (some nowUs))
  | recoverSending table nowUs => some (store.moveStatus table [.sending] .pending (some nowUs))
  | quarantineRecovered table =>
    some (store.moveStatus table [.pending, .sending, .failed] .quarantined none)
  | delete table status mutationIds =>
    some ⟨store.journal.filter (survives table status mutationIds), store.recoveryRequired,
      store.keyed.sublist List.filter_sublist⟩
  | writeRecoveryRequired required => some { store with recoveryRequired := some required }
  | clearRecoveryMarkerIfSettled =>
    some { store with
      recoveryRequired :=
        if store.hasSending then store.recoveryRequired
        else store.recoveryRequired.map fun _ => false }

theorem exec_insert {store store' : LocalStore} {rows : List JournalRow}
    (he : (insert rows).exec store = some store') :
    store'.journal = store.journal ++ rows ∧ store'.recoveryRequired = store.recoveryRequired := by
  simp only [exec] at he
  split at he
  · cases he
    exact ⟨rfl, rfl⟩
  · cases he

/-- A statement gives no row but those it inserts. -/
theorem mem_exec {store store' : LocalStore} {statement : JournalStatement} {row' : JournalRow}
    (he : statement.exec store = some store') (h : row' ∈ store'.journal) :
    (∃ row ∈ store.journal, row'.SameMutation row) ∨
      ∃ rows, statement = .insert rows ∧ row' ∈ rows := by
  cases statement with
  | insert rows =>
    rw [(exec_insert he).1] at h
    rcases List.mem_append.1 h with h | h
    · exact .inl ⟨row', h, JournalRow.SameMutation.refl row'⟩
    · exact .inr ⟨rows, rfl, h⟩
  | statusUpdates table updates =>
    cases he
    obtain ⟨row, hrow, rfl⟩ := List.mem_map.1 h
    exact .inl ⟨row, hrow, sameMutation_applyUpdatesIn ..⟩
  | retryFailed table nowUs =>
    cases he
    obtain ⟨row, hrow, rfl⟩ := List.mem_map.1 h
    exact .inl ⟨row, hrow, JournalRow.sameMutation_moveStatus ..⟩
  | recoverSending table nowUs =>
    cases he
    obtain ⟨row, hrow, rfl⟩ := List.mem_map.1 h
    exact .inl ⟨row, hrow, JournalRow.sameMutation_moveStatus ..⟩
  | quarantineRecovered table =>
    cases he
    obtain ⟨row, hrow, rfl⟩ := List.mem_map.1 h
    exact .inl ⟨row, hrow, JournalRow.sameMutation_moveStatus ..⟩
  | delete table status mutationIds =>
    cases he
    exact .inl ⟨row', List.mem_of_mem_filter h, JournalRow.SameMutation.refl row'⟩
  | writeRecoveryRequired required =>
    cases he
    exact .inl ⟨row', h, JournalRow.SameMutation.refl row'⟩
  | clearRecoveryMarkerIfSettled =>
    cases he
    exact .inl ⟨row', h, JournalRow.SameMutation.refl row'⟩

/-- A statement takes no row away but those it deletes. -/
theorem exec_keeps {store store' : LocalStore} {statement : JournalStatement} {row : JournalRow}
    (he : statement.exec store = some store') (h : row ∈ store.journal) :
    (∃ row' ∈ store'.journal, row'.mutationId = row.mutationId) ∨
      ∃ table mutationIds, statement = .delete table row.status mutationIds := by
  cases statement with
  | insert rows => exact .inl ⟨row, (exec_insert he).1 ▸ List.mem_append_left _ h, rfl⟩
  | statusUpdates table updates =>
    cases he
    exact .inl ⟨_, List.mem_map.2 ⟨row, h, rfl⟩, (sameMutation_applyUpdatesIn ..).1⟩
  | retryFailed table nowUs =>
    cases he
    exact .inl ⟨_, List.mem_map.2 ⟨row, h, rfl⟩, (JournalRow.sameMutation_moveStatus ..).1⟩
  | recoverSending table nowUs =>
    cases he
    exact .inl ⟨_, List.mem_map.2 ⟨row, h, rfl⟩, (JournalRow.sameMutation_moveStatus ..).1⟩
  | quarantineRecovered table =>
    cases he
    exact .inl ⟨_, List.mem_map.2 ⟨row, h, rfl⟩, (JournalRow.sameMutation_moveStatus ..).1⟩
  | delete table status mutationIds =>
    cases he
    by_cases hs : survives table status mutationIds row = true
    · exact .inl ⟨row, List.mem_filter.2 ⟨h, hs⟩, rfl⟩
    · simp only [survives, Bool.not_eq_true, Bool.not_eq_false', Bool.and_eq_true] at hs
      exact .inr ⟨table, mutationIds, by rw [of_decide_eq_true hs.1.2]⟩
  | writeRecoveryRequired required =>
    cases he
    exact .inl ⟨row, h, rfl⟩
  | clearRecoveryMarkerIfSettled =>
    cases he
    exact .inl ⟨row, h, rfl⟩

/-- The statement sets the status of rows that are there. -/
def writesStatus : JournalStatement → Bool
  | statusUpdates _ _ => true
  | retryFailed _ _ => true
  | recoverSending _ _ => true
  | quarantineRecovered _ => true
  | _ => false

/-- The statement recovers the row: a request for it may be under way. -/
def recovers : JournalStatement → JournalRow → Bool
  | recoverSending table _, row => row.tableKey = table && row.status = .sending
  | quarantineRecovered table, row =>
    row.tableKey = table && [.pending, .sending, .failed].contains row.status
  | _, _ => false

end JournalStatement

/-! ### The answers of the write endpoints -/

inductive AckStatus
  | acked
  | conflicted
  | rejected
  | other
  deriving DecidableEq, Repr

structure MutationAck where
  mutationId : ℕ
  status : AckStatus
  httpStatus : Option ℕ
  deriving DecidableEq, Repr

inductive WriteResponse
  /-- a 2xx with one ack a mutation, or fewer -/
  | acks (acks : List MutationAck)
  /-- a non-2xx that names the mutations at fault -/
  | rejections (mutationIds : List ℕ)
  /-- any other failure: transport, authentication, a non-2xx without names -/
  | failure
  deriving DecidableEq, Repr

/-- `classifyFailureStatus`: a 4xx outside the transient ones ends the retries. -/
def isStructuralRejection (httpStatus : Option ℕ) : Bool :=
  httpStatus.any fun status =>
    400 ≤ status && status < 500 && !([401, 403, 408, 425, 429].contains status)

/-- `resolveBatchFailureOutcome`; `retryAtUs` is the jittered backoff. -/
def resolveBatchFailureOutcome (attemptCount maxAttempts retryAtUs : ℕ) :
    MutationStatus × Option ℕ :=
  if maxAttempts ≤ attemptCount then (.quarantined, none) else (.failed, some retryAtUs)

def resolveFailureOutcome (httpStatus : Option ℕ) (attemptCount maxAttempts retryAtUs : ℕ) :
    MutationStatus × Option ℕ :=
  if isStructuralRejection httpStatus then (.quarantined, none)
  else resolveBatchFailureOutcome attemptCount maxAttempts retryAtUs

/-- The ack of a mutation; of two with its id the map keeps the last. -/
def ackOf (acks : List MutationAck) (mutationId : ℕ) : Option MutationAck :=
  acks.reverse.find? fun ack => ack.mutationId = mutationId

/-- The status and the retry time that `flushBatch` gives a row. -/
def batchOutcome (maxAttempts : ℕ) (retryAtUs : ℕ → ℕ) (response : WriteResponse)
    (row : JournalRow) : MutationStatus × Option ℕ :=
  match response with
  | .failure =>
    resolveBatchFailureOutcome (row.attemptCount + 1) maxAttempts (retryAtUs row.mutationId)
  | .rejections mutationIds =>
    if mutationIds.contains row.mutationId then (.quarantined, none) else (.failed, none)
  | .acks acks =>
    match ackOf acks row.mutationId with
    | some ⟨_, .conflicted, _⟩ => (.conflicted, none)
    | some ⟨_, .acked, _⟩ => (.acked, none)
    | ack => resolveFailureOutcome (ack.bind MutationAck.httpStatus) (row.attemptCount + 1)
        maxAttempts (retryAtUs row.mutationId)

/-- The status and the retry time that `flushUnit` gives a row. -/
def unitOutcome (maxAttempts : ℕ) (retryAtUs : ℕ → ℕ) (response : WriteResponse)
    (row : JournalRow) : MutationStatus × Option ℕ :=
  match response with
  | .acks acks =>
    match ackOf acks row.mutationId with
    | some ⟨_, .rejected, _⟩ => (.rejected, none)
    | some ⟨_, .conflicted, _⟩ => (.conflicted, none)
    | some ⟨_, .acked, _⟩ => (.acked, none)
    | ack => resolveFailureOutcome (ack.bind MutationAck.httpStatus) (row.attemptCount + 1)
        maxAttempts (retryAtUs row.mutationId)
  | _ => resolveBatchFailureOutcome (row.attemptCount + 1) maxAttempts (retryAtUs row.mutationId)

/-! ### The answers keep to the status machine -/

theorem isValid_resolveBatchFailureOutcome (attemptCount maxAttempts retryAtUs : ℕ) :
    isValidMutationTransition .sending
      (resolveBatchFailureOutcome attemptCount maxAttempts retryAtUs).1 = true := by
  unfold resolveBatchFailureOutcome
  split <;> rfl

theorem isValid_resolveFailureOutcome (httpStatus : Option ℕ)
    (attemptCount maxAttempts retryAtUs : ℕ) :
    isValidMutationTransition .sending
      (resolveFailureOutcome httpStatus attemptCount maxAttempts retryAtUs).1 = true := by
  unfold resolveFailureOutcome
  split
  · rfl
  · exact isValid_resolveBatchFailureOutcome ..

theorem isValid_batchOutcome (maxAttempts : ℕ) (retryAtUs : ℕ → ℕ) (response : WriteResponse)
    (row : JournalRow) :
    isValidMutationTransition .sending
      (batchOutcome maxAttempts retryAtUs response row).1 = true := by
  unfold batchOutcome
  split
  · exact isValid_resolveBatchFailureOutcome ..
  · split <;> rfl
  · split
    · rfl
    · rfl
    · exact isValid_resolveFailureOutcome ..

theorem isValid_unitOutcome (maxAttempts : ℕ) (retryAtUs : ℕ → ℕ) (response : WriteResponse)
    (row : JournalRow) :
    isValidMutationTransition .sending
      (unitOutcome maxAttempts retryAtUs response row).1 = true := by
  unfold unitOutcome
  split
  · split
    · rfl
    · rfl
    · rfl
    · exact isValid_resolveFailureOutcome ..
  · exact isValid_resolveBatchFailureOutcome ..

end Mutation
