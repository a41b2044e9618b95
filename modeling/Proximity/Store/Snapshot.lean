import Std.Data.TreeMap
import Proximity.Error
import Proximity.Store.Run

set_option autoImplicit false
set_option relaxedAutoImplicit false

/-!
# Snapshots

A snapshot is one committed state of the page store: page runs by their first page, and an ordered
key space beside them. It never changes, so a read transaction is nothing but a snapshot.

## Main definitions

* `Proximity.Snapshot` — a committed state.
* `Proximity.Snapshot.empty` — the state before the first commit.
* `Proximity.bindingsUnder` — the walk along the keys that start alike.
* `Proximity.Snapshot.run`, `Proximity.Snapshot.get?`, `Proximity.Snapshot.scan` — what a reader
  can ask.
-/

namespace Proximity

/-- The ordered key space. -/
abbrev Entries := Std.TreeMap Bytes Bytes compare

/-- The page runs, each under its first page. -/
abbrev Runs := Std.TreeMap PageId Run compare

/-- What an ordered map holds under the keys that start with `stem`, in byte order of the keys. The
walk begins at the first key that does not come before `stem`, and it ends at the first one behind
it that does not start with `stem`. -/
def bindingsUnder {β : Type} (map : Std.TreeMap Bytes β compare) (stem : Bytes) :
    List (Bytes × β) :=
  (map.toList.dropWhile fun entry => (compare entry.1 stem).isLT).takeWhile fun entry =>
    entry.1.startsWith stem

/-- The entries whose key starts with `stem`, in byte order of their keys. -/
def Entries.scan (entries : Entries) (stem : Bytes) : List (Bytes × Bytes) :=
  bindingsUnder entries stem

/-- A committed state of the page store. -/
structure Snapshot where
  /-- The number of commits that led here. -/
  version : Nat
  /-- The first page that has never been handed out. -/
  nextPage : UInt64
  /-- The page runs. -/
  runs : Runs
  /-- The key space. -/
  entries : Entries

namespace Snapshot

/-- The state before the first commit. -/
def empty : Snapshot where
  version := 0
  nextPage := 0
  runs := ∅
  entries := ∅

/-- The contents of the run that starts at a page. -/
def run (snapshot : Snapshot) (page : PageId) : Except StoreError Run :=
  match snapshot.runs[page]? with
  | some run => .ok run
  | none => .error (.pageNotFound page)

/-- The value under a key. -/
def get? (snapshot : Snapshot) (key : Bytes) : Option Bytes :=
  snapshot.entries[key]?

/-- The entries whose key starts with `stem`, in byte order of their keys. -/
def scan (snapshot : Snapshot) (stem : Bytes) : List (Bytes × Bytes) :=
  snapshot.entries.scan stem

end Snapshot

end Proximity
