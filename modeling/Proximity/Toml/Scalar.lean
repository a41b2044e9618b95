import Proximity.Toml.Document
import Proximity.Toml.Quotation

set_option autoImplicit false
set_option relaxedAutoImplicit false

/-!
# TOML scalars

A number, a truth value, a date or a time is written as one word without blanks, and its form alone
says which of them it is.

## Main definitions

* `Proximity.Toml.scalar?` — the value that a word stands for.
* `Proximity.Toml.isWordChar` — the characters of which words consist.
-/

namespace Proximity.Toml

/-! ## Digits -/

/-- Whether a character is a decimal digit. -/
def isDigit (c : Char) : Bool := '0' ≤ c && c ≤ '9'

/-- Whether a character can be part of a word. -/
def isWordChar (c : Char) : Bool :=
  isDigit c || ('a' ≤ c && c ≤ 'z') || ('A' ≤ c && c ≤ 'Z') || ['+', '-', '_', '.', ':'].contains c

/-- The values of digits between which single underscores may stand. -/
def digits? (base : Nat) : List Char → Option (List Nat)
  | [] => none
  | [c] => (digitValue? base c).map fun value => [value]
  | c :: '_' :: rest => do
    let value ← digitValue? base c
    return value :: (← digits? base rest)
  | c :: rest => do
    let value ← digitValue? base c
    return value :: (← digits? base rest)

/-- The digits of a decimal number that does not begin with a zero unless it is zero. -/
def plainDigits? (word : List Char) : Option (List Nat) := do
  let digits ← digits? 10 word
  match word with
  | '0' :: _ :: _ => none
  | _ => return digits

/-- A word without its sign, and whether the sign is a minus. -/
def splitSign : List Char → Bool × List Char
  | '+' :: rest => (false, rest)
  | '-' :: rest => (true, rest)
  | word => (false, word)

/-! ## Numbers -/

/-- The integer that a word stands for. -/
def integerValue? (word : List Char) : Option Int :=
  match word with
  | '0' :: 'x' :: rest => (digits? 16 rest).map fun digits => (ofDigits 16 digits : Int)
  | '0' :: 'o' :: rest => (digits? 8 rest).map fun digits => (ofDigits 8 digits : Int)
  | '0' :: 'b' :: rest => (digits? 2 rest).map fun digits => (ofDigits 2 digits : Int)
  | word =>
    let (isMinus, rest) := splitSign word
    (plainDigits? rest).map fun digits =>
      if isMinus then -(ofDigits 10 digits : Int) else (ofDigits 10 digits : Int)

/-- One more than the greatest integer that a document can hold: integers have 64 bits. -/
def integerBound : Nat := 0x8000000000000000

/-- The integer that a word stands for, if a document can hold it. -/
def integer? (word : List Char) : Option Node :=
  (integerValue? word).bind fun value =>
    if -(integerBound : Int) ≤ value ∧ value < integerBound then some (.integer value) else none

/-- The least whole number that is too large for a double precision number: half a unit above the
greatest one. -/
def overflowBound : Nat := 1 <<< 1024 - 1 <<< 970

/-- Whether a decimal number is too large for a double precision number; the point stands `exponent`
places behind its last digit. A number with fewer digits before its point than the bound is not. -/
def overflows (digits : List Nat) (exponent : Int) : Bool :=
  let digits := digits.dropWhile (· = 0)
  let places := (digits.length : Int) + exponent
  if digits.isEmpty || places < 309 then false
  else if 309 < places then true
  else
    let whole := (digits ++ List.replicate exponent.toNat 0).take places.toNat
    overflowBound ≤ ofDigits 10 whole

/-- Whether a word is a decimal number with a fraction or an exponent, or one of the special
numbers; a positive number that is too large is none. -/
def isFloat (word : List Char) : Bool :=
  let (isMinus, rest) := splitSign word
  if rest = ['i', 'n', 'f'] || rest = ['n', 'a', 'n'] then true
  else
    let whole := rest.takeWhile fun c => c ≠ '.' && c ≠ 'e' && c ≠ 'E'
    let behind := rest.drop whole.length
    let fraction := match behind with
      | '.' :: more => more.takeWhile fun c => c ≠ 'e' && c ≠ 'E'
      | _ => []
    let hasPoint := behind.head? = some '.'
    let power := behind.drop (if hasPoint then fraction.length + 1 else 0)
    let exponent? : Option Int := match power with
      | [] => some 0
      | _ :: more =>
        let (isDown, digits) := splitSign more
        (digits? 10 digits).map fun digits =>
          if isDown then -(ofDigits 10 digits : Int) else (ofDigits 10 digits : Int)
    let fraction? := if hasPoint then digits? 10 fraction else some []
    match plainDigits? whole, fraction?, exponent? with
    | some whole, some fraction, some exponent =>
      (hasPoint || !power.isEmpty) &&
        (isMinus || !overflows (whole ++ fraction) (exponent - fraction.length))
    | _, _, _ => false

/-! ## Dates and times -/

/-- The number that two digits stand for. -/
def twoDigits? (a b : Char) : Option Nat :=
  if isDigit a && isDigit b then some ((a.toNat - 48) * 10 + (b.toNat - 48)) else none

/-- Whether two digits stand for a number in a range. -/
def inRange (low high : Nat) (a b : Char) : Bool :=
  match twoDigits? a b with
  | some value => low ≤ value && value ≤ high
  | none => false

/-- The number of days in a month. -/
def daysInMonth (year month : Nat) : Nat :=
  if month = 2 then
    if (year % 4 = 0 ∧ year % 100 ≠ 0) ∨ year % 400 = 0 then 29 else 28
  else if [4, 6, 9, 11].contains month then 30 else 31

/-- What stands behind a date. -/
def afterDate? : List Char → Option (List Char)
  | y₀ :: y₁ :: y₂ :: y₃ :: '-' :: m₀ :: m₁ :: '-' :: d₀ :: d₁ :: rest => do
    let century ← twoDigits? y₀ y₁
    let year ← twoDigits? y₂ y₃
    let month ← twoDigits? m₀ m₁
    if inRange 1 12 m₀ m₁ && inRange 1 (daysInMonth (century * 100 + year) month) d₀ d₁ then
      return rest
    else none
  | _ => none

/-- What stands behind a time of day. -/
def afterTime? : List Char → Option (List Char)
  | h₀ :: h₁ :: ':' :: m₀ :: m₁ :: ':' :: s₀ :: s₁ :: rest =>
    if inRange 0 23 h₀ h₁ && inRange 0 59 m₀ m₁ && inRange 0 60 s₀ s₁ then
      match rest with
      | '.' :: more =>
        if (more.head?.map isDigit).getD false then some (more.dropWhile isDigit) else none
      | rest => some rest
    else none
  | _ => none

/-- Whether a word is empty or the offset of a time zone. -/
def isOffset : List Char → Bool
  | [] => true
  | ['Z'] => true
  | ['z'] => true
  | [sign, h₀, h₁, ':', m₀, m₁] =>
    (sign = '+' || sign = '-') && inRange 0 23 h₀ h₁ && inRange 0 59 m₀ m₁
  | _ => false

/-- Whether a word is a time of day, with the offset of a time zone if that is allowed. -/
def isTime (withOffset : Bool) (word : List Char) : Bool :=
  match afterTime? word with
  | some rest => if withOffset then isOffset rest else rest.isEmpty
  | none => false

/-- Whether a word is a date, a time of day, or both. -/
def isDatetime (word : List Char) : Bool :=
  match afterDate? word with
  | some [] => true
  | some (c :: rest) => (c = 'T' || c = 't' || c = ' ') && isTime true rest
  | none => isTime false word

/-! ## Words -/

/-- The value that a word stands for. -/
def scalar? (word : List Char) : Option Node :=
  if word = ['t', 'r', 'u', 'e'] then some (.boolean true)
  else if word = ['f', 'a', 'l', 's', 'e'] then some (.boolean false)
  else if isDatetime word then some .datetime
  else if isFloat word then some .float
  else integer? word

end Proximity.Toml
