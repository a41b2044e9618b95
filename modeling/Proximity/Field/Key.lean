import Proximity.Identifier
import Proximity.Bytes

set_option autoImplicit false
set_option relaxedAutoImplicit false

/-!
# Record keys

The records of all fields share one key space. A key names the kind of its record and the field,
and ends in the vector or page number where a field has many records of the kind. The number takes
eight bytes, most significant first, so that the byte order of keys is the order of the numbers.

## Main definitions

* `Proximity.RecordKey` — what a key says.
* `Proximity.RecordKey.bytes` — the key.
* `Proximity.RecordKey.fieldName?` — the field that a key of a field record names.
-/

namespace Proximity

/-- What the key of a record says. -/
inductive RecordKey
  /-- The definition of a field. -/
  | field (name : String)
  /-- The state of the graph of a field. -/
  | graph (name : String)
  /-- A node of the graph of a field. -/
  | node (name : String) (id : VectorId)
  /-- A container of a field. -/
  | container (name : String) (page : PageId)
deriving DecidableEq

namespace RecordKey

/-- What the keys of all field definitions start with. -/
def fieldStem : Bytes :=
  Bytes.ofText "vec/field/"

/-- What the keys of all nodes of a field start with. -/
def nodeStem (name : String) : Bytes :=
  Bytes.ofText "vec/node/" ++ Bytes.ofText name ++ Bytes.ofText "/"

/-- What the keys of all containers of a field start with. -/
def containerStem (name : String) : Bytes :=
  Bytes.ofText "vec/container/" ++ Bytes.ofText name ++ Bytes.ofText "/"

/-- The key of a record. -/
def bytes : RecordKey → Bytes
  | field name => fieldStem ++ Bytes.ofText name
  | graph name => Bytes.ofText "vec/graph/" ++ Bytes.ofText name
  | node name id => nodeStem name ++ Bytes.bigEndian 8 id.raw.toNat
  | container name page => containerStem name ++ Bytes.bigEndian 8 page.number.toNat

/-- The field that the key of a field definition names. -/
def fieldName? (key : Bytes) : Option String :=
  (Bytes.after? fieldStem key).bind Bytes.toText?

/-- The number that the last part of a key holds, if it has the width of a number. -/
def number? (part : Bytes) : Option UInt64 :=
  if part.length = 8 then some (UInt64.ofNat (Bytes.ofBigEndian part)) else none

end RecordKey

end Proximity
