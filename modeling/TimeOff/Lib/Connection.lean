import Mathlib.Data.List.Basic

/-!
# Connections

A connection on which transactions nest. The transaction that is started first
is one of the database; those that are started while it is open are savepoints
in it. A commit and a rollback act on whatever has been started last:

* `startTransaction`: `BEGIN`, or a new `SAVEPOINT`;
* `commitTransaction`: `COMMIT`, or `RELEASE` of the innermost savepoint;
* `rollbackTransaction`: `ROLLBACK`, or back to the innermost savepoint.

The number of open transactions is the length of `snapshots`. A savepoint that
has been rolled back to stays on the stack of the database, below those that
are set later; it is never referred to again.
-/

/-- What the statements on a connection see, and what its open transactions
    have started from, the innermost first. -/
structure Connection (σ : Type*) where
  data : σ
  snapshots : List σ

namespace Connection

variable {σ : Type*}

/-- No transaction is open. -/
def idle (s : σ) : Connection σ := ⟨s, []⟩

/-- A statement is executed. -/
def modify (f : σ → σ) (c : Connection σ) : Connection σ := { c with data := f c.data }

/-- A transaction starts, within those that are open. -/
def startTransaction (c : Connection σ) : Connection σ :=
  { c with snapshots := c.data :: c.snapshots }

/-- `none` if no transaction is open. -/
def commitTransaction (c : Connection σ) : Option (Connection σ) :=
  match c.snapshots with
  | [] => none
  | _ :: rest => some { c with snapshots := rest }

/-- `none` if no transaction is open. -/
def rollbackTransaction (c : Connection σ) : Option (Connection σ) :=
  match c.snapshots with
  | [] => none
  | s :: rest => some ⟨s, rest⟩

/-- What has been committed: nothing that an open transaction has done. -/
def committed (c : Connection σ) : σ := c.snapshots.getLast?.getD c.data

variable {s : σ} {c c' : Connection σ}

@[simp] theorem data_idle : (idle s).data = s := rfl
@[simp] theorem snapshots_idle : (idle s).snapshots = [] := rfl
@[simp] theorem snapshots_modify {f : σ → σ} : (c.modify f).snapshots = c.snapshots := rfl
@[simp] theorem data_modify {f : σ → σ} : (c.modify f).data = f c.data := rfl

theorem committed_of_snapshots_eq_nil (h : c.snapshots = []) : c.committed = c.data := by
  rw [committed, h]
  rfl

/-- A commit forgets the snapshot it does not go back to. -/
theorem commitTransaction_eq_some : c.commitTransaction = some c' ↔
    ∃ s, c.snapshots = s :: c'.snapshots ∧ c'.data = c.data := by
  obtain ⟨data, snapshots⟩ := c
  obtain ⟨data', snapshots'⟩ := c'
  cases snapshots with
  | nil => simp [commitTransaction]
  | cons s rest => simp [commitTransaction, and_comm, eq_comm]

/-- A rollback goes back to the innermost snapshot. -/
theorem rollbackTransaction_eq_some : c.rollbackTransaction = some c' ↔
    c.snapshots = c'.data :: c'.snapshots := by
  obtain ⟨data, snapshots⟩ := c
  obtain ⟨data', snapshots'⟩ := c'
  cases snapshots with
  | nil => simp [rollbackTransaction]
  | cons s rest => simp [rollbackTransaction]

theorem commitTransaction_eq_none : c.commitTransaction = none ↔ c.snapshots = [] := by
  obtain ⟨data, snapshots⟩ := c
  cases snapshots <;> simp [commitTransaction]

theorem rollbackTransaction_eq_none : c.rollbackTransaction = none ↔ c.snapshots = [] := by
  obtain ⟨data, snapshots⟩ := c
  cases snapshots <;> simp [rollbackTransaction]

/-- The innermost transaction is closed, one way or the other. -/
theorem isSome_commitTransaction : c.commitTransaction.isSome ↔ c.snapshots ≠ [] := by
  obtain ⟨data, snapshots⟩ := c
  cases snapshots <;> simp [commitTransaction]

theorem isSome_rollbackTransaction : c.rollbackTransaction.isSome ↔ c.snapshots ≠ [] := by
  obtain ⟨data, snapshots⟩ := c
  cases snapshots <;> simp [rollbackTransaction]

end Connection
