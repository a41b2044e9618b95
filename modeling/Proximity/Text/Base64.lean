import Proximity.Bytes

set_option autoImplicit false
set_option relaxedAutoImplicit false

/-!
# Base64

Bytes as text, four characters for three bytes. The text must be padded to a whole number of groups
and its unused bits must be zero, so that each byte string has one text.

## Main definitions

* `Proximity.Base64.decode?` — the bytes that a text stands for.
* `Proximity.Base64.trim` — a text without the blanks around it.
-/

namespace Proximity.Base64

/-! ## Digits -/

/-- The value of a digit. -/
def digit? (c : Char) : Option Nat :=
  if 'A' ≤ c ∧ c ≤ 'Z' then some (c.toNat - 'A'.toNat)
  else if 'a' ≤ c ∧ c ≤ 'z' then some (c.toNat - 'a'.toNat + 26)
  else if '0' ≤ c ∧ c ≤ '9' then some (c.toNat - '0'.toNat + 52)
  else if c = '+' then some 62
  else if c = '/' then some 63
  else none

/-! ## Groups -/

/-- The bytes that a text without surrounding blanks stands for, put behind those already `read`. -/
def decodeGroups (read : Bytes) : List Char → Option Bytes
  | [] => some read.reverse
  | [c₀, c₁, '=', '='] => do
    let bits := (← digit? c₀) * 64 + (← digit? c₁)
    if bits % 16 = 0 then return (UInt8.ofNat (bits / 16) :: read).reverse else none
  | [c₀, c₁, c₂, '='] => do
    let bits := ((← digit? c₀) * 64 + (← digit? c₁)) * 64 + (← digit? c₂)
    if bits % 4 = 0 then
      return (UInt8.ofNat (bits / 4) :: UInt8.ofNat (bits / 1024) :: read).reverse
    else none
  | c₀ :: c₁ :: c₂ :: c₃ :: rest => do
    let bits := (((← digit? c₀) * 64 + (← digit? c₁)) * 64 + (← digit? c₂)) * 64 + (← digit? c₃)
    decodeGroups
      (UInt8.ofNat bits :: UInt8.ofNat (bits / 256) :: UInt8.ofNat (bits / 65536) :: read) rest
  | _ => none

/-! ## Texts -/

/-- Whether a character counts as a blank. -/
def isBlank (c : Char) : Bool :=
  [0x20, 0x85, 0xa0, 0x1680, 0x2028, 0x2029, 0x202f, 0x205f, 0x3000].contains c.toNat ||
    (0x09 ≤ c.toNat && c.toNat ≤ 0x0d) || (0x2000 ≤ c.toNat && c.toNat ≤ 0x200a)

/-- The characters of a text without the blanks at both ends. -/
def trim (text : String) : List Char :=
  ((text.toList.dropWhile isBlank).reverse.dropWhile isBlank).reverse

/-- The bytes that a text stands for; blanks around it do not matter. -/
def decode? (text : String) : Option Bytes :=
  decodeGroups [] (trim text)

end Proximity.Base64
