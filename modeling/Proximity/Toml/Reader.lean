import Proximity.Toml.Value

set_option autoImplicit false
set_option relaxedAutoImplicit false

/-!
# Reading TOML

A document is a sequence of lines: keys with their values, headers under which the keys that follow
them go, comments and empty lines.

## Main definitions

* `Proximity.Toml.document?` — the table that a text describes.
-/

namespace Proximity.Toml

/-- What the lines read so far describe. -/
structure Progress where
  /-- The table of the document. -/
  document : Table := []
  /-- The path of the last header. -/
  header : List String := []

namespace Progress

/-- A key and its value, on the rest of a line. -/
def pair? (progress : Progress) (cs : List Char) : Option (Progress × List Char) := do
  let (path, name, behind) ← key? cs
  match behind with
  | '=' :: rest =>
    let (value, rest) ← value? nestingLimit (skipBlanks rest)
    let rest ← lineEnd? rest
    let document ← insertPair progress.header path name value progress.document
    return ({ progress with document }, rest)
  | _ => none

/-- The header of a table, read from behind its opening bracket. -/
def tableHeader? (progress : Progress) (cs : List Char) : Option (Progress × List Char) := do
  let (path, name, behind) ← key? cs
  match behind with
  | ']' :: rest =>
    let rest ← lineEnd? rest
    let document ← openTable path name progress.document
    return (⟨document, path ++ [name]⟩, rest)
  | _ => none

/-- A doubled header, read from behind its opening brackets. -/
def elementHeader? (progress : Progress) (cs : List Char) : Option (Progress × List Char) := do
  let (path, name, behind) ← key? cs
  match behind with
  | ']' :: ']' :: rest =>
    let rest ← lineEnd? rest
    let document ← openElement path name progress.document
    return (⟨document, path ++ [name]⟩, rest)
  | _ => none

/-- One line, whose leading blanks are skipped. -/
def line? (progress : Progress) (cs : List Char) : Option (Progress × List Char) :=
  match cs with
  | '#' :: _ | '\n' :: _ | '\r' :: _ => (lineEnd? cs).map fun rest => (progress, rest)
  | '[' :: '[' :: rest => progress.elementHeader? rest
  | '[' :: rest => progress.tableHeader? rest
  | _ => progress.pair? cs

/-- All lines. -/
def lines? (progress : Progress) (cs : List Char) : Option Progress :=
  match skipBlanks cs with
  | [] => some progress
  | front =>
    match progress.line? front with
    | none => none
    | some (progress, rest) =>
      if _ : rest.length < cs.length then progress.lines? rest else none
termination_by cs.length

end Progress

/-- The table that a text describes, if it is a TOML document; a byte order mark may stand in
front. -/
def document? (text : String) : Option Table :=
  let cs := match text.toList with
    | '\ufeff' :: rest => rest
    | cs => cs
  (Progress.lines? {} cs).map Progress.document

end Proximity.Toml
