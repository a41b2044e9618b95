set_option autoImplicit false
set_option relaxedAutoImplicit false

/-!
# TOML quotations and keys

A text stands between quotation marks: double ones, between which a backslash begins an escape, or
single ones, between which every character stands for itself. Tripled marks allow line ends between
them. A key is a name, or a path of names with points between them; names need no marks if they are
plain.

Every reader answers what it found at the front of the characters and what stands behind it.

## Main definitions

* `Proximity.Toml.skipBlanks`, `Proximity.Toml.skipFiller`, `Proximity.Toml.lineEnd?` — what may
  stand between the parts of a document.
* `Proximity.Toml.quotation?` — a text in any kind of marks.
* `Proximity.Toml.key?` — a dotted key.
-/

namespace Proximity.Toml

/-! ## Blanks, comments and line ends -/

/-- Whether a character is a space or a tab. -/
def isBlank (c : Char) : Bool := c = ' ' || c = '\t'

/-- Whether a character may stand in a comment or a literal text: every character but the control
characters, of which only the tab is allowed. -/
def isPlain (c : Char) : Bool := c = '\t' || (' ' ≤ c && c ≠ '\x7f')

/-- What stands behind leading blanks. -/
def skipBlanks (cs : List Char) : List Char := cs.dropWhile isBlank

/-- What stands behind leading blanks and line ends. -/
def skipBlankLines : List Char → List Char
  | '\n' :: rest => skipBlankLines rest
  | '\r' :: '\n' :: rest => skipBlankLines rest
  | c :: rest => if isBlank c then skipBlankLines rest else c :: rest
  | [] => []

/-- What stands behind leading blanks, line ends and comments; `inComment` says whether a comment
has begun. A comment must reach the end of its line. -/
def skipFiller (inComment : Bool) : List Char → Option (List Char)
  | [] => if inComment then none else some []
  | '\n' :: rest => skipFiller false rest
  | '\r' :: '\n' :: rest => skipFiller false rest
  | c :: rest =>
    if inComment then if isPlain c then skipFiller true rest else none
    else if isBlank c then skipFiller false rest
    else if c = '#' then skipFiller true rest
    else some (c :: rest)

/-- What stands behind the end of a line, before which there may be blanks and a comment. -/
def lineEnd? (cs : List Char) : Option (List Char) :=
  let behind := match skipBlanks cs with
    | '#' :: rest => rest.dropWhile isPlain
    | rest => rest
  match behind with
  | [] => some []
  | '\n' :: rest => some rest
  | '\r' :: '\n' :: rest => some rest
  | _ => none

/-! ## Escapes -/

/-- The value of a digit to a base up to sixteen. -/
def digitValue? (base : Nat) (c : Char) : Option Nat :=
  let value? :=
    if '0' ≤ c ∧ c ≤ '9' then some (c.toNat - '0'.toNat)
    else if 'a' ≤ c ∧ c ≤ 'f' then some (c.toNat - 'a'.toNat + 10)
    else if 'A' ≤ c ∧ c ≤ 'F' then some (c.toNat - 'A'.toNat + 10)
    else none
  value?.filter (· < base)

/-- The number with these digits. -/
def ofDigits (base : Nat) (digits : List Nat) : Nat :=
  digits.foldl (fun number digit => number * base + digit) 0

/-- The character whose code the first `count` hexadecimal digits give. -/
def codePoint? (count : Nat) (cs : List Char) : Option Char := do
  let digits ← (cs.take count).mapM (digitValue? 16)
  let code := ofDigits 16 digits
  if digits.length = count ∧ code.isValidChar then return Char.ofNat code else none

/-- The character that stands for a line end, a tab or the like behind a backslash. -/
def controlEscape? : Char → Option Char
  | 'b' => some '\x08'
  | 't' => some '\t'
  | 'n' => some '\n'
  | 'f' => some '\x0c'
  | 'r' => some '\r'
  | '"' => some '"'
  | '\\' => some '\\'
  | _ => none

/-- The character that an escape stands for, read from behind its backslash. -/
def escape? : List Char → Option (Char × List Char)
  | 'u' :: rest => (codePoint? 4 rest).map fun c => (c, rest.drop 4)
  | 'U' :: rest => (codePoint? 8 rest).map fun c => (c, rest.drop 8)
  | c :: rest => (controlEscape? c).map fun c => (c, rest)
  | [] => none

/-- Reading an escape leaves fewer characters.

**Proof sketch.** One case for each escape; each takes at least one character. -/
theorem length_lt_of_escape? {cs rest : List Char} {c : Char} (h : escape? cs = some (c, rest)) :
    rest.length < cs.length := by
  unfold escape? at h
  split at h
  · obtain ⟨_, _, h⟩ := Option.map_eq_some_iff.1 h
    cases h
    simp only [List.length_drop, List.length_cons]
    omega
  · obtain ⟨_, _, h⟩ := Option.map_eq_some_iff.1 h
    cases h
    simp only [List.length_drop, List.length_cons]
    omega
  · obtain ⟨_, _, h⟩ := Option.map_eq_some_iff.1 h
    cases h
    simp
  · cases h

/-- Skipping blanks and line ends adds no characters. -/
theorem length_skipBlankLines_le (cs : List Char) : (skipBlankLines cs).length ≤ cs.length := by
  fun_induction skipBlankLines cs with
  | case1 rest ih => simp only [List.length_cons]; omega
  | case2 rest ih => simp only [List.length_cons]; omega
  | case3 c rest _ _ _ ih => simp only [List.length_cons]; omega
  | case4 c rest _ _ _ => exact Nat.le_refl _
  | case5 => exact Nat.le_refl _

/-! ## Texts -/

/-- A character put in front of a text that was read. -/
def prepend (c : Char) (read : List Char × List Char) : List Char × List Char :=
  (c :: read.1, read.2)

/-- A text on one line, read from behind its first mark. -/
def shortText? (mark : Char) (cs : List Char) : Option (List Char × List Char) :=
  match cs with
  | [] => none
  | c :: rest =>
    if c = mark then some ([], rest)
    else if c = '\\' ∧ mark = '"' then
      match _ : escape? rest with
      | none => none
      | some (escaped, behind) => (shortText? mark behind).map (prepend escaped)
    else if isPlain c then (shortText? mark rest).map (prepend c)
    else none
termination_by cs.length
decreasing_by
  · have := length_lt_of_escape? (by assumption)
    simp only [List.length_cons]
    omega
  · simp

/-- Whether only blanks stand before the end of the line. -/
def isLineEnd (cs : List Char) : Bool :=
  match skipBlanks cs with
  | '\n' :: _ => true
  | '\r' :: '\n' :: _ => true
  | _ => false

/-- A text over several lines, read from behind its first marks. Up to two marks can stand inside
it, also right before the last three; a backslash at the end of a line takes the blanks and line
ends behind it out of the text. -/
def longText? (mark : Char) (cs : List Char) : Option (List Char × List Char) :=
  match cs with
  | [] => none
  | '\n' :: rest => (longText? mark rest).map (prepend '\n')
  | '\r' :: '\n' :: rest => (longText? mark rest).map (prepend '\n')
  | c :: rest =>
    if c = mark then
      if rest.take 2 = [mark, mark] then
        let kept := min 2 ((rest.drop 2).takeWhile (· = mark)).length
        some (List.replicate kept mark, rest.drop (2 + kept))
      else (longText? mark rest).map (prepend c)
    else if c = '\\' ∧ mark = '"' then
      if isLineEnd rest then longText? mark (skipBlankLines rest)
      else
        match _ : escape? rest with
        | none => none
        | some (escaped, behind) => (longText? mark behind).map (prepend escaped)
    else if isPlain c then (longText? mark rest).map (prepend c)
    else none
termination_by cs.length
decreasing_by
  · simp
  · simp only [List.length_cons]; omega
  · simp
  · have := length_skipBlankLines_le rest
    simp only [List.length_cons]
    omega
  · have := length_lt_of_escape? (by assumption)
    simp only [List.length_cons]
    omega
  · simp

/-- What stands behind a line end at the very front. -/
def skipFirstLineEnd : List Char → List Char
  | '\n' :: rest => rest
  | '\r' :: '\n' :: rest => rest
  | cs => cs

/-- A text in any kind of marks. -/
def quotation? (cs : List Char) : Option (String × List Char) :=
  let read? := match cs with
    | '"' :: '"' :: '"' :: rest => longText? '"' (skipFirstLineEnd rest)
    | '\'' :: '\'' :: '\'' :: rest => longText? '\'' (skipFirstLineEnd rest)
    | '"' :: rest => shortText? '"' rest
    | '\'' :: rest => shortText? '\'' rest
    | _ => none
  read?.map fun (text, rest) => (String.ofList text, rest)

/-! ## Keys -/

/-- Whether a character can stand in a name without marks. -/
def isNameChar (c : Char) : Bool :=
  ('0' ≤ c && c ≤ '9') || ('a' ≤ c && c ≤ 'z') || ('A' ≤ c && c ≤ 'Z') || c = '-' || c = '_'

/-- One name of a key. -/
def name? (cs : List Char) : Option (String × List Char) :=
  let read? := match cs with
    | '"' :: rest => shortText? '"' rest
    | '\'' :: rest => shortText? '\'' rest
    | cs =>
      let word := cs.takeWhile isNameChar
      if word.isEmpty then none else some (word, cs.drop word.length)
  read?.map fun (text, rest) => (String.ofList text, rest)

/-- A key of at most `limit` names, as the path to its last name and that name, with what stands
behind it and the blanks that follow. -/
def keyUpTo? : (limit : Nat) → List Char → Option (List String × String × List Char)
  | 0, _ => none
  | limit + 1, cs => do
    let (name, rest) ← name? (skipBlanks cs)
    match skipBlanks rest with
    | '.' :: more =>
      let (path, last, rest) ← keyUpTo? limit more
      return (name :: path, last, rest)
    | rest => return ([], name, rest)

/-- The greatest number of names in a key, and of arrays and inline tables inside each other. -/
def nestingLimit : Nat := 79

/-- A dotted key, with what stands behind it and the blanks that follow. -/
def key? (cs : List Char) : Option (List String × String × List Char) :=
  keyUpTo? nestingLimit cs

end Proximity.Toml
