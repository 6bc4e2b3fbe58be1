/-
One database connection, as PostgreSQL documents its transaction blocks.

BEGIN in an open block and COMMIT or ROLLBACK outside one only warn.  A statement outside a
block commits by itself.  A statement that fails inside one aborts the block: until its end
every statement but COMMIT and ROLLBACK fails, and COMMIT rolls it back without an error.
-/
import Mathlib

namespace Connection

/-- An open transaction block. -/
structure Tx (D : Type*) where
  work : D
  failed : Bool

structure Conn (D : Type*) where
  committed : D
  tx : Option (Tx D)

/-- The connection after a statement, and whether the statement succeeded. -/
structure Reply (D : Type*) where
  conn : Conn D
  ok : Bool

namespace Conn

variable {D : Type*} (c : Conn D)

/-- What the next statement sees. -/
def visible : D :=
  match c.tx with
  | none => c.committed
  | some tx => tx.work

def begin : Reply D :=
  match c.tx with
  | none => ⟨{ c with tx := some ⟨c.committed, false⟩ }, true⟩
  | some tx => ⟨c, !tx.failed⟩

def commit : Reply D :=
  match c.tx with
  | none => ⟨c, true⟩
  | some tx => ⟨⟨if tx.failed then c.committed else tx.work, none⟩, true⟩

def rollback : Conn D := ⟨c.committed, none⟩

/-- Any other statement; it fails where it gives no database. -/
def exec (statement : D → Option D) : Reply D :=
  match c.tx with
  | none =>
    match statement c.committed with
    | some d => ⟨⟨d, none⟩, true⟩
    | none => ⟨c, false⟩
  | some tx =>
    if tx.failed then ⟨c, false⟩
    else
      match statement tx.work with
      | some d => ⟨⟨c.committed, some ⟨d, false⟩⟩, true⟩
      | none => ⟨⟨c.committed, some ⟨tx.work, true⟩⟩, false⟩

end Conn

section

variable {D : Type*} {c : Conn D} {statement : D → Option D} {d work : D}

theorem exec_autocommit (h : c.tx = none) (hs : statement c.committed = some d) :
    c.exec statement = ⟨⟨d, none⟩, true⟩ := by
  simp [Conn.exec, h, hs]

theorem exec_autocommit_fails (h : c.tx = none) (hs : statement c.committed = none) :
    c.exec statement = ⟨c, false⟩ := by
  simp [Conn.exec, h, hs]

theorem exec_open (h : c.tx = some ⟨work, false⟩) (hs : statement work = some d) :
    c.exec statement = ⟨⟨c.committed, some ⟨d, false⟩⟩, true⟩ := by
  simp [Conn.exec, h, hs]

theorem exec_open_fails (h : c.tx = some ⟨work, false⟩) (hs : statement work = none) :
    c.exec statement = ⟨⟨c.committed, some ⟨work, true⟩⟩, false⟩ := by
  simp [Conn.exec, h, hs]

@[simp] theorem visible_idle (h : c.tx = none) : c.visible = c.committed := by
  simp [Conn.visible, h]

@[simp] theorem visible_open {tx : Tx D} (h : c.tx = some tx) : c.visible = tx.work := by
  simp [Conn.visible, h]

@[simp] theorem begin_committed : c.begin.conn.committed = c.committed := by
  unfold Conn.begin
  split <;> rfl

@[simp] theorem begin_visible : c.begin.conn.visible = c.visible := by
  unfold Conn.begin
  split
  · next h => rw [visible_idle h]; rfl
  · rfl

@[simp] theorem rollback_committed : c.rollback.committed = c.committed := rfl

@[simp] theorem rollback_visible : c.rollback.visible = c.committed := rfl

/-- COMMIT keeps what was visible, or the block was aborted and is rolled back. -/
theorem commit_cases : c.commit.conn = ⟨c.visible, none⟩ ∨
    (∃ tx, c.tx = some tx ∧ tx.failed = true) ∧ c.commit.conn = c.rollback := by
  unfold Conn.commit
  cases htx : c.tx with
  | none =>
    refine .inl ?_
    obtain ⟨committed, tx⟩ := c
    obtain rfl : tx = none := htx
    rfl
  | some tx =>
    cases hf : tx.failed with
    | false => exact .inl (by simp [htx, hf])
    | true => exact .inr ⟨⟨tx, rfl, hf⟩, by simp [Conn.rollback, hf]⟩

/-- Any other statement either gives a database, which is committed where no block is open,
or changes nothing that is visible or committed. -/
theorem exec_cases (c : Conn D) (statement : D → Option D) :
    (∃ d, statement c.visible = some d ∧
      (c.tx = none ∧ c.exec statement = ⟨⟨d, none⟩, true⟩ ∨
        c.tx.isSome ∧ c.exec statement = ⟨⟨c.committed, some ⟨d, false⟩⟩, true⟩)) ∨
    ((c.exec statement).ok = false ∧ (c.exec statement).conn.visible = c.visible ∧
      (c.exec statement).conn.committed = c.committed ∧
      (c.exec statement).conn.tx.isSome = c.tx.isSome) := by
  cases htx : c.tx with
  | none =>
    cases hs : statement c.committed with
    | some d => exact .inl ⟨d, by simp [htx, hs], .inl ⟨rfl, exec_autocommit htx hs⟩⟩
    | none => exact .inr (by simp [exec_autocommit_fails htx hs, htx])
  | some tx =>
    obtain ⟨work, failed⟩ := tx
    cases failed with
    | true => exact .inr (by simp [Conn.exec, htx])
    | false =>
      cases hs : statement work with
      | some d => exact .inl ⟨d, by simp [htx, hs], .inr ⟨rfl, exec_open htx hs⟩⟩
      | none => exact .inr (by simp [exec_open_fails htx hs, htx, Conn.visible])

end

end Connection
