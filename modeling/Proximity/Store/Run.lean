import Proximity.Bytes

set_option autoImplicit false
set_option relaxedAutoImplicit false

/-!
# Page runs

Storage is handed out in runs of whole pages. A run is read and replaced as a whole; the index
keeps equally long records inside it and reads or overwrites one of them at a time.

## Main definitions

* `Proximity.pageSize` — the length of a page.
* `Proximity.Run` — the contents of a page run.
* `Proximity.Run.slice?`, `Proximity.Run.overwrite?` — a part of a run, where it lies inside.
-/

namespace Proximity

/-- The length of a page in bytes. -/
def pageSize : Nat := 8192

/-- The number of pages that hold this many bytes; nothing takes one page. The bytes are rounded up
in 64 bits. -/
def pagesForBytes (bytes : Nat) : Nat :=
  if bytes = 0 then 1 else (bytes + pageSize - 1) % UInt64.size / pageSize

/-- The contents of a page run. -/
abbrev Run := Array UInt8

namespace Run

/-- A run of pages filled with zeros. -/
def blank (pages : Nat) : Run :=
  Array.replicate (pages * pageSize) 0

/-- The `length` bytes of a run from `offset` on, if the run is that long. -/
def slice? (run : Run) (offset length : Nat) : Option Bytes :=
  if offset + length ≤ run.size then some (run.extract offset (offset + length)).toList else none

/-- A run with some bytes written over its contents from `offset` on, if they fit into it. -/
def overwrite? (run : Run) (offset : Nat) (bytes : Bytes) : Option Run :=
  if offset + bytes.length ≤ run.size then
    some (run.extract 0 offset ++ bytes.toArray ++ run.extract (offset + bytes.length) run.size)
  else none

end Run

end Proximity
