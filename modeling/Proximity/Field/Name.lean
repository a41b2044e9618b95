import Proximity.Error
import Proximity.Text.Quoted

set_option autoImplicit false
set_option relaxedAutoImplicit false

/-!
# Field names

A field name becomes a part of keys in which a slash separates the parts, so it may not hold one.

## Main definitions

* `Proximity.FieldName.validate` — the check that a field creation makes.
-/

namespace Proximity.FieldName

/-- The greatest length of a field name in bytes. -/
def maxBytes : Nat := 256

/-- What is wrong with a field name, the first of several faults. -/
def fault? (name : String) : Option String :=
  if name.isEmpty then some "field name cannot be empty"
  else if maxBytes < name.utf8ByteSize then some "field name cannot exceed 256 bytes"
  else if name.toList.contains '/' then some "field name cannot contain '/'"
  else if name.toList.contains '\x00' then some "field name cannot contain null bytes"
  else none

/-- The check that a field creation makes of its name. -/
def validate (name : String) : Except IndexError Unit :=
  match fault? name with
  | some fault => .error (.invalidOptions (Text.quote name ++ ": " ++ fault))
  | none => .ok ()

end Proximity.FieldName
