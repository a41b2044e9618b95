import Proximity.Toml.Scalar

set_option autoImplicit false
set_option relaxedAutoImplicit false

/-!
# TOML values

A value is a text, a word, an array of values or an inline table of keys and values. Arrays may go
over several lines, inline tables may not.

## Main definitions

* `Proximity.Toml.word?` — a value without marks or brackets.
* `Proximity.Toml.value?` — any value, with a limit for what stands inside each other.
-/

namespace Proximity.Toml

/-! ## Words -/

/-- The time of day that one space separates from a date in front of it, with that space. -/
def timeBehind : List Char → List Char
  | ' ' :: a :: b :: ':' :: rest =>
    if isDigit a && isDigit b then ' ' :: a :: b :: ':' :: rest.takeWhile isWordChar else []
  | _ => []

/-- A number, a truth value, a date or a time. -/
def word? (cs : List Char) : Option (Node × List Char) :=
  let word := cs.takeWhile isWordChar
  let behind := cs.drop word.length
  let time := if (afterDate? word).any List.isEmpty then timeBehind behind else []
  (scalar? (word ++ time)).map fun node => (node, behind.drop time.length)

/-! ## Arrays and inline tables -/

/-- The values of an array up to its closing bracket; a comma may follow the last one. -/
def items? (item? : List Char → Option (Node × List Char)) (cs : List Char) :
    Option (List Node × List Char) := do
  match ← skipFiller false cs with
  | ']' :: rest => return ([], rest)
  | front =>
    let (first, behind) ← item? front
    match ← skipFiller false behind with
    | ']' :: rest => return ([first], rest)
    | ',' :: rest =>
      if _ : rest.length < cs.length then
        let (others, rest) ← items? item? rest
        return (first :: others, rest)
      else none
    | _ => none
termination_by cs.length

/-- The keys and values of an inline table up to its closing brace, put into what it holds so
far. -/
def pairs? (item? : List Char → Option (Node × List Char)) (table : Table) (cs : List Char) :
    Option (Table × List Char) := do
  let (path, name, behind) ← key? cs
  match behind with
  | '=' :: rest =>
    let (value, rest) ← item? (skipBlanks rest)
    let table ← insertInlinePair path name value table
    match skipBlanks rest with
    | '}' :: rest => return (table, rest)
    | ',' :: rest =>
      if _ : rest.length < cs.length then pairs? item? table rest else none
    | _ => none
  | _ => none
termination_by cs.length

/-- An inline table, read from behind its opening brace. -/
def inlineTable? (item? : List Char → Option (Node × List Char)) (cs : List Char) :
    Option (Node × List Char) :=
  match skipBlanks cs with
  | '}' :: rest => some (.inlineTable .stated [], rest)
  | front => (pairs? item? [] front).map fun (table, rest) => (.inlineTable .stated table, rest)

/-! ## Values -/

/-- A value in which at most `depth` arrays and inline tables stand inside each other. -/
def value? (depth : Nat) (cs : List Char) : Option (Node × List Char) :=
  match cs, depth with
  | '[' :: _, 0 => none
  | '\x7b' :: _, 0 => none
  | '[' :: rest, depth + 1 =>
    (items? (value? depth) rest).map fun (items, rest) => (.array items, rest)
  | '\x7b' :: rest, depth + 1 => inlineTable? (value? depth) rest
  | '"' :: _, _ => (quotation? cs).map fun (text, rest) => (.string text, rest)
  | '\'' :: _, _ => (quotation? cs).map fun (text, rest) => (.string text, rest)
  | _, _ => word? cs
termination_by structural depth

end Proximity.Toml
