/-
When a request carries the mutations of a batch in the order they were authored.

The numbers of a journal grow along the batch within a table only, so two mutations of one request
are in order exactly when the key their read sorts by grows from the earlier to the later one; a
read leaves the order of equal keys open.
-/
import Pgxsinkit.Mutation.Enqueue

namespace Mutation

variable {options : EnqueueOptions} {unit : Option WriteUnit} {generated sequence : ℕ → ℕ}

/-! ### Numbering -/

/-- A request `flushUnit` may build: the unit's rows by `mutation_seq`, equal ones in any order. -/
def IsUnitRequest (journal : List JournalRow) (unitId : ℕ) (request : List JournalRow) : Prop :=
  request.Perm (journal.filter fun row => row.writeUnit = some unitId && row.status.isEligible) ∧
    request.Pairwise fun row other => row.mutationSeq ≤ other.mutationSeq

/-- A request `flushBatch` may build: the first rows by `enqueued_at_us` and `mutation_seq`, equal
ones in any order. -/
def IsBatchRequest (journal : List JournalRow) (tables : List ℕ) (nowUs batchSize : ℕ)
    (request : List JournalRow) : Prop :=
  ∃ rows : List JournalRow, rows.Perm (journal.filter fun row =>
      tables.contains row.tableKey && isSendEligible nowUs journal row) ∧
    rows.Pairwise flushOrder ∧ request = rows.take batchSize

theorem readUnitPendingRows_request (journal : List JournalRow) (unitId : ℕ) :
    IsUnitRequest journal unitId (readUnitPendingRows unitId journal) := by
  have htotal : Std.Total fun row other : JournalRow => row.mutationSeq ≤ other.mutationSeq :=
    ⟨fun row other => Nat.le_total _ _⟩
  have htrans : IsTrans JournalRow fun row other => row.mutationSeq ≤ other.mutationSeq :=
    ⟨fun _ _ _ => Nat.le_trans⟩
  exact ⟨List.perm_insertionSort _ _, List.pairwise_insertionSort _ _⟩

theorem flushOrder_trans {row other last : JournalRow} (h : flushOrder row other)
    (h' : flushOrder other last) : flushOrder row last := by
  unfold flushOrder at *
  omega

theorem flushOrder_total (row other : JournalRow) : flushOrder row other ∨ flushOrder other row := by
  unfold flushOrder
  omega

theorem readPendingBatchRows_request (journal : List JournalRow) (tables : List ℕ)
    (nowUs batchSize : ℕ) : IsBatchRequest journal tables nowUs batchSize
      (readPendingBatchRows tables nowUs batchSize journal) := by
  have htotal : Std.Total flushOrder := ⟨flushOrder_total⟩
  have htrans : IsTrans JournalRow flushOrder := ⟨fun _ _ _ => flushOrder_trans⟩
  exact ⟨_, List.perm_insertionSort _ _, List.pairwise_insertionSort _ _, rfl⟩

/-- The row is a later state of `queued`. -/
def JournalRow.SameSubmission (row queued : JournalRow) : Prop :=
  row.SameMutation queued ∧ row.writeMode = queued.writeMode ∧ row.writeUnit = queued.writeUnit ∧
    row.enqueuedAtUs = queued.enqueuedAtUs

/-- A journal some time after `queued`: what it has of those rows may have been sent, answered or
retired meanwhile, and other rows may have come. -/
def Later (queued journal : List JournalRow) : Prop :=
  (journal.map JournalRow.mutationId).Nodup ∧ ∀ row ∈ journal, ∀ old ∈ queued,
    row.mutationId = old.mutationId → row.SameSubmission old

theorem Later.mono {queued rows journal : List JournalRow} (h : Later queued journal)
    (hrows : ∀ row ∈ rows, row ∈ queued) : Later rows journal :=
  ⟨h.1, fun row hrow old hold => h.2 row hrow old (hrows old hold)⟩

section Requests

variable {items : List NormalizedItem} {journal : List JournalRow} {unitIds : List ℕ}
  {batchSize : ℕ}

end Requests

end Mutation
