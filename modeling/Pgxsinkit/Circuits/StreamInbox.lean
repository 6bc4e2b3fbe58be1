/-
The staging buffer between the shape streams and the applier.

The maps of the source, keyed by shape name, are functions here; a shape that was never
registered reads as the constructor's initial values.
-/
import Pgxsinkit.Circuits.Change

namespace Circuits

variable {S V : Type} [LinearOrder S]

/-- One delivery held for commit, with the offset that acknowledges it. -/
structure BufferedBatch (S V : Type) where
  changes : List (SyncChange S V)
  offset : S

structure StreamInbox (S V : Type) where
  batches : S → List (BufferedBatch S V)
  appliedOffsets : S → Option S
  currentlyUpToDate : S → Bool
  reportedUpToDate : S → Bool
  epochs : S → Nat
  alignedOnce : Bool

namespace StreamInbox

/-- `new StreamInbox(shapeNames)` -/
def new : StreamInbox S V :=
  ⟨fun _ => [], fun _ => none, fun _ => false, fun _ => false, fun _ => 0, false⟩

/-- `applied !== null && offset <= applied`: the batch is applied already. -/
def isApplied (inbox : StreamInbox S V) (shapeName offset : S) : Bool :=
  match inbox.appliedOffsets shapeName with
  | none => false
  | some applied => offset ≤ applied

def ingestBatch (inbox : StreamInbox S V) (shapeName : S) (changes : List (SyncChange S V))
    (offset : S) (upToDate : Bool) : StreamInbox S V :=
  { inbox with
    currentlyUpToDate := Function.update inbox.currentlyUpToDate shapeName upToDate
    reportedUpToDate := Function.update inbox.reportedUpToDate shapeName
      (inbox.reportedUpToDate shapeName || upToDate)
    batches := Function.update inbox.batches shapeName
      (if inbox.isApplied shapeName offset then inbox.batches shapeName
       else inbox.batches shapeName ++ [⟨changes, offset⟩]) }

/-- The commit gate: every shape's most recent response asserted up-to-date. -/
def isGroupUpToDate (inbox : StreamInbox S V) (shapeNames : List S) : Bool :=
  shapeNames.all inbox.currentlyUpToDate

def everyShapeReported (inbox : StreamInbox S V) (shapeNames : List S) : Bool :=
  shapeNames.all inbox.reportedUpToDate

def needsAlignment (inbox : StreamInbox S V) : Bool := !inbox.alignedOnce

def markAligned (inbox : StreamInbox S V) : StreamInbox S V := { inbox with alignedOnce := true }

/-- Everything held for a shape, in stream order. -/
def peekAll (inbox : StreamInbox S V) (shapeName : S) : List (SyncChange S V) :=
  (inbox.batches shapeName).flatMap BufferedBatch.changes

/-- The offset the shape would resume from if everything held were committed. -/
def pendingOffsets (inbox : StreamInbox S V) (shapeName : S) : Option S :=
  ((inbox.batches shapeName).getLast?.map BufferedBatch.offset).or
    (inbox.appliedOffsets shapeName)

/-- Drop what was peeked and advance the applied offsets, except for a shape that was
reset since the peek. -/
def ackAll (inbox : StreamInbox S V) (epochsAtPeek : S → Nat) : StreamInbox S V :=
  { inbox with
    appliedOffsets := fun shapeName =>
      if inbox.epochs shapeName ≠ epochsAtPeek shapeName then inbox.appliedOffsets shapeName
      else inbox.pendingOffsets shapeName
    batches := fun shapeName =>
      if inbox.epochs shapeName ≠ epochsAtPeek shapeName then inbox.batches shapeName else [] }

end StreamInbox

end Circuits
