import Proximity.Store.WriteTransaction

set_option autoImplicit false
set_option relaxedAutoImplicit false

/-!
# The page store

The store is its latest committed snapshot and at most one open write transaction. Readers take the
latest snapshot and keep it; the writer becomes visible to later readers by its commit.

## Main definitions

* `Proximity.Store` — the committed snapshot and the writer.
* `Proximity.Store.beginRead`, `Proximity.Store.beginWrite` — opening transactions.
* `Proximity.Store.commit`, `Proximity.Store.abandon` — the two ends of a write transaction.
-/

namespace Proximity

/-- The page store. -/
structure Store where
  /-- The latest committed snapshot. -/
  committed : Snapshot
  /-- The open write transaction, if there is one. -/
  writer : Option WriteTransaction

namespace Store

/-- A store without commits. -/
def empty : Store where
  committed := .empty
  writer := none

/-- The version of the latest commit. -/
def version (store : Store) : Nat :=
  store.committed.version

/-- A read transaction on the latest commit. -/
def beginRead (store : Store) : Snapshot :=
  store.committed

/-- Opens the write transaction, unless one is open. -/
def beginWrite (store : Store) : Except StoreError Store :=
  match store.writer with
  | some _ => .error .writerBusy
  | none => .ok { store with writer := some (.start store.committed) }

/-- Commits the write transaction and answers the new version, if one is open. -/
def commit? (store : Store) : Option (Nat × Store) :=
  store.writer.map fun txn => (txn.commit.version, { committed := txn.commit, writer := none })

/-- Ends the write transaction without a trace. -/
def abandon (store : Store) : Store :=
  { store with writer := none }

end Store

end Proximity
