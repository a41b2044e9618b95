import Proximity.Text.Unprintable

set_option autoImplicit false
set_option relaxedAutoImplicit false

/-!
# Quoted text

A message shows a name between quotation marks, with everything escaped that could be misread.

## Main definitions

* `Proximity.Text.quote` — a text between quotation marks.
-/

namespace Proximity.Text

/-- One character of a quoted text: a quotation mark or backslash behind a backslash, the usual
letters for the usual controls, and the code point in hexadecimal for anything without a form. -/
def quoteChar (c : Char) : List Char :=
  match c with
  | '\x00' => ['\\', '0']
  | '\t' => ['\\', 't']
  | '\n' => ['\\', 'n']
  | '\r' => ['\\', 'r']
  | '"' => ['\\', '"']
  | '\\' => ['\\', '\\']
  | c =>
    if isPrintable c then [c]
    else ['\\', 'u', '\x7b'] ++ Nat.toDigits 16 c.toNat ++ ['\x7d']

/-- A text between quotation marks. -/
def quote (text : String) : String :=
  String.ofList ('"' :: text.toList.flatMap quoteChar ++ ['"'])

end Proximity.Text
