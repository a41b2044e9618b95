set_option autoImplicit false
set_option relaxedAutoImplicit false

/-!
# TOML documents

A TOML document is a table of named values. Tables come from headers, from the paths of headers and
from dotted keys, and where a table comes from decides what may still be put into it: nothing is
ever defined twice.

## Main definitions

* `Proximity.Toml.Node` — a value or a table of a document.
* `Proximity.Toml.insertPair` — a key and a value put into a table.
* `Proximity.Toml.openTable`, `Proximity.Toml.openElement` — what a header does.
-/

namespace Proximity.Toml

/-- What a table comes from. -/
inductive Origin
  /-- A header of its own, an inline table, or the document. -/
  | stated
  /-- The path of a header of a table inside it. -/
  | implied
  /-- The path of a dotted key. -/
  | dotted
deriving DecidableEq

/-- A value or a table of a document. -/
inductive Node
  /-- A text. -/
  | string (text : String)
  /-- An integer. -/
  | integer (value : Int)
  /-- A truth value. -/
  | boolean (value : Bool)
  /-- A number that is not written as an integer. -/
  | float
  /-- A date, a time, or both. -/
  | datetime
  /-- A list of values. -/
  | array (items : List Node)
  /-- A table that is written as a value. -/
  | inlineTable (origin : Origin) (entries : List (String × Node))
  /-- A table with lines of its own. -/
  | table (origin : Origin) (entries : List (String × Node))
  /-- The tables that came under one doubled header, the last one first. -/
  | tables (elements : List (List (String × Node)))

/-- The named values of a table. -/
abbrev Table := List (String × Node)

namespace Table

/-- The value under a name. -/
def lookup? (table : Table) (name : String) : Option Node :=
  (List.find? (fun entry => entry.1 = name) table).map Prod.snd

/-- The table with the value under a name replaced, or put in. -/
def set (table : Table) (name : String) (value : Node) : Table :=
  (name, value) :: List.filter (fun entry => entry.1 ≠ name) table

end Table

/-- A change of a table that can be refused. -/
abbrev Change := Origin → Table → Option (Origin × Table)

/-- A change made at the end of a path of names. Missing tables on the way are made, with the origin
`onTheWay`; a dotted key does not pass through a table with a header of its own. -/
def alongPath (onTheWay : Origin) (change : Change) : (path : List String) → Change
  | [], origin, table => change origin table
  | name :: path, origin, table => do
    match table.lookup? name with
    | none =>
      let (innerOrigin, inner) ← alongPath onTheWay change path onTheWay []
      return (origin, table.set name (.table innerOrigin inner))
    | some (.table innerOrigin inner) =>
      if onTheWay = .dotted ∧ innerOrigin = .stated then none
      else
        let (innerOrigin, inner) ← alongPath onTheWay change path innerOrigin inner
        return (origin, table.set name (.table innerOrigin inner))
    | some (.tables (inner :: others)) =>
      let (_, inner) ← alongPath onTheWay change path .stated inner
      return (origin, table.set name (.tables (inner :: others)))
    | some _ => none

/-- A change made at the end of the path of a dotted key inside an inline table. -/
def alongInlinePath (change : Change) : (path : List String) → Change
  | [], origin, table => change origin table
  | name :: path, origin, table => do
    match table.lookup? name with
    | none =>
      let (innerOrigin, inner) ← alongInlinePath change path .dotted []
      return (origin, table.set name (.inlineTable innerOrigin inner))
    | some (.inlineTable innerOrigin inner) =>
      if innerOrigin = .stated then none
      else
        let (innerOrigin, inner) ← alongInlinePath change path innerOrigin inner
        return (origin, table.set name (.inlineTable innerOrigin inner))
    | some _ => none

/-- A new name put into the table at the end of a path; the table must come from that path. -/
def addName (isDirect : Bool) (name : String) (value : Node) : Change := fun origin table =>
  if decide (origin = .dotted) == isDirect then none
  else if (table.lookup? name).isSome then none
  else some (origin, table.set name value)

/-- A dotted key and its value put into the table under the path of the last header. -/
def insertPair (header path : List String) (name : String) (value : Node) (document : Table) :
    Option Table :=
  (alongPath .implied (alongPath .dotted (addName path.isEmpty name value) path) header .stated
    document).map Prod.snd

/-- A dotted key and its value put into an inline table. -/
def insertInlinePair (path : List String) (name : String) (value : Node) (table : Table) :
    Option Table :=
  (alongInlinePath (addName path.isEmpty name value) path .stated table).map Prod.snd

/-- What the header of a table does at the end of its path: a table that is only implied becomes one
with a header of its own. -/
def stateTable (name : String) : Change := fun origin table =>
  match table.lookup? name with
  | none => some (origin, table.set name (.table .stated []))
  | some (.table .implied inner) => some (origin, table.set name (.table .stated inner))
  | some _ => none

/-- What a doubled header does at the end of its path: one more table begins. -/
def addElement (name : String) : Change := fun origin table =>
  match table.lookup? name with
  | none => some (origin, table.set name (.tables [[]]))
  | some (.tables elements) => some (origin, table.set name (.tables ([] :: elements)))
  | some _ => none

/-- The document after the header of a table. -/
def openTable (path : List String) (name : String) (document : Table) : Option Table :=
  (alongPath .implied (stateTable name) path .stated document).map Prod.snd

/-- The document after a doubled header. -/
def openElement (path : List String) (name : String) (document : Table) : Option Table :=
  (alongPath .implied (addElement name) path .stated document).map Prod.snd

end Proximity.Toml
