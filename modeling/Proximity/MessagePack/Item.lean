import Proximity.Bytes

set_option autoImplicit false
set_option relaxedAutoImplicit false

/-!
# MessagePack items

Records are stored as MessagePack: a sequence of data items, each a marker byte and what the marker
calls for.

## Main definitions

* `Proximity.MessagePack.Item` — a data item.
-/

namespace Proximity.MessagePack

/-- A data item. -/
inductive Item
  /-- The absent value. -/
  | nil
  /-- A truth value. -/
  | bool (value : Bool)
  /-- A number below `2 ^ 64` in a form without a sign. -/
  | unsigned (value : Nat)
  /-- An integer between `-2 ^ 63` and `2 ^ 63 - 1` in a form with a sign. -/
  | signed (value : Int)
  /-- A single precision number, by its bits. -/
  | float32 (bits : UInt32)
  /-- A double precision number, by its bits. -/
  | float64 (bits : UInt64)
  /-- A text, by its bytes. -/
  | str (bytes : Bytes)
  /-- A byte string. -/
  | bin (bytes : Bytes)
  /-- A list of items. -/
  | array (items : List Item)
  /-- A list of entries, keys and values in turn. -/
  | map (items : List Item)
  /-- A value of an application's own kind. -/
  | ext (kind : UInt8) (payload : Bytes)

end Proximity.MessagePack
