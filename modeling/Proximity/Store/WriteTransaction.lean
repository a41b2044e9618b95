import Proximity.Store.Snapshot

set_option autoImplicit false
set_option relaxedAutoImplicit false

/-!
# Write transactions

A write transaction starts from a committed snapshot and keeps its changes beside it: new and
replaced page runs, and for each key that it touched either the new value or the mark that the key
is gone. It reads its own changes first. A commit lays the changes over the snapshot.

## Main definitions

* `Proximity.WriteTransaction` — the snapshot it started from, and the changes.
* `Proximity.WriteTransaction.allocate`, `Proximity.WriteTransaction.writeRun`,
  `Proximity.WriteTransaction.put`, `Proximity.WriteTransaction.delete` — the changes.
* `Proximity.WriteTransaction.view` — everything that the transaction sees, as one snapshot.
* `Proximity.WriteTransaction.commit` — the next committed snapshot.
-/

namespace Proximity

/-- Uncommitted changes over a committed snapshot. -/
structure WriteTransaction where
  /-- The snapshot that the transaction started from. -/
  base : Snapshot
  /-- The first page that this transaction has not handed out. -/
  nextPage : UInt64
  /-- The runs that were allocated or replaced. -/
  runs : Runs
  /-- The keys that were touched, with their new value unless they were deleted. -/
  edits : Std.TreeMap Bytes (Option Bytes) compare

namespace WriteTransaction

/-- A transaction without changes. -/
def start (base : Snapshot) : WriteTransaction where
  base := base
  nextPage := base.nextPage
  runs := ∅
  edits := ∅

/-- The version that the transaction reads from. -/
def version (txn : WriteTransaction) : Nat :=
  txn.base.version

/-- Whether nothing has been changed. -/
def isClean (txn : WriteTransaction) : Bool :=
  txn.runs.isEmpty && txn.edits.isEmpty

/-! ## Reading -/

/-- The contents of the run that starts at a page, with the transaction's own changes. -/
def run (txn : WriteTransaction) (page : PageId) : Except StoreError Run :=
  match txn.runs[page]? with
  | some run => .ok run
  | none => txn.base.run page

/-- The value under a key, with the transaction's own changes. -/
def get? (txn : WriteTransaction) (key : Bytes) : Option Bytes :=
  match txn.edits[key]? with
  | some edit => edit
  | none => txn.base.get? key

/-- One edit applied to the key space. -/
def applyEdit (entries : Entries) (key : Bytes) : Option Bytes → Entries
  | some value => entries.insert key value
  | none => entries.erase key

/-- The key space with the transaction's own changes. -/
def entries (txn : WriteTransaction) : Entries :=
  txn.edits.foldl applyEdit txn.base.entries

/-- The entries whose key starts with `stem`, in byte order of their keys: those of the snapshot,
into which the transaction's own changes of such keys are merged. -/
def scan (txn : WriteTransaction) (stem : Bytes) : List (Bytes × Bytes) :=
  ((bindingsUnder txn.edits stem).foldl (fun merged edit => applyEdit merged edit.1 edit.2)
    (.ofList (txn.base.scan stem))).toList

/-- Everything that the transaction sees, as a snapshot of the version it started from. -/
def view (txn : WriteTransaction) : Snapshot where
  version := txn.base.version
  nextPage := txn.nextPage
  runs := txn.runs.foldl (fun runs page run => runs.insert page run) txn.base.runs
  entries := txn.entries

/-! ## Changing -/

/-- Hands out a run of `pages` pages filled with zeros. -/
def allocate (txn : WriteTransaction) (pages : Nat) :
    Except StoreError (PageId × WriteTransaction) :=
  if pages = 0 then .error (.invalidInput "cannot allocate an empty page run")
  else
    let page : PageId := ⟨txn.nextPage⟩
    .ok (page, { txn with
      nextPage := txn.nextPage + UInt64.ofNat pages
      runs := txn.runs.insert page (Run.blank pages) })

/-- Replaces the contents of a run by others of the same length. -/
def writeRun (txn : WriteTransaction) (page : PageId) (contents : Run) :
    Except StoreError WriteTransaction := do
  let current ← txn.run page
  if contents.size = current.size then
    return { txn with runs := txn.runs.insert page contents }
  else throw (.runLength page current.size contents.size)

/-- Sets the value under a key. -/
def put (txn : WriteTransaction) (key value : Bytes) : WriteTransaction :=
  { txn with edits := txn.edits.insert key (some value) }

/-- Removes a key. -/
def delete (txn : WriteTransaction) (key : Bytes) : WriteTransaction :=
  { txn with edits := txn.edits.insert key none }

/-- The committed snapshot that follows: what the transaction sees, one version on. -/
def commit (txn : WriteTransaction) : Snapshot :=
  { txn.view with version := txn.base.version + 1 }

end WriteTransaction

end Proximity
