import Proximity.Error
import Proximity.MessagePack.Reader
import Proximity.MessagePack.Writer

set_option autoImplicit false
set_option relaxedAutoImplicit false

/-!
# Records as MessagePack

A record is written as the list of its fields, a named choice as its name, an absent value as nil.
A reader also takes a map from field names or field numbers to fields, in which unknown keys do not
matter, a choice by its number, and a byte string for a list of numbers. A number that stands for a
field or a choice has no sign.

## Main definitions

* `Proximity.MessagePack.Storable` — records with a form as an item.
* `Proximity.MessagePack.encode`, `Proximity.MessagePack.decode` — records as bytes.
* `Proximity.MessagePack.Item.nat?`, `Proximity.MessagePack.Item.text?`,
  `Proximity.MessagePack.Item.list?`, `Proximity.MessagePack.Item.numbers?`,
  `Proximity.MessagePack.Item.fields?`, `Proximity.MessagePack.Item.choice?` — the parts that
  records are made of.
-/

namespace Proximity.MessagePack

namespace Item

/-! ## Items for the parts of a record -/

/-- A natural number. -/
def ofNat (n : Nat) : Item := .unsigned n

/-- A text. -/
def ofText (text : String) : Item := .str (Bytes.ofText text)

/-- A value that may be absent. -/
def ofOption {α : Type} (item : α → Item) : Option α → Item
  | none => .nil
  | some value => item value

/-! ## Parts of a record from items -/

/-- The natural number below `bound` that an item holds. -/
def nat? (bound : Nat) : Item → Option Nat
  | .unsigned value => if value < bound then some value else none
  | .signed value => if 0 ≤ value ∧ value < bound then some value.toNat else none
  | _ => none

/-- The bytes of a text or byte string. -/
def bytes? : Item → Option Bytes
  | .str bytes => some bytes
  | .bin bytes => some bytes
  | _ => none

/-- The text that an item holds. -/
def text? (item : Item) : Option String :=
  item.bytes?.bind Bytes.toText?

/-- The values that a list of items holds; an empty byte string is an empty list. -/
def list? {α : Type} (value? : Item → Option α) : Item → Option (List α)
  | .array items => items.mapM value?
  | .bin [] => some []
  | _ => none

/-- The values that a list of numbers holds, where the bytes of a byte string count as numbers. -/
def numbers? {α : Type} (value? : Item → Option α) : Item → Option (List α)
  | .bin bytes => bytes.mapM fun byte => value? (.ofNat byte.toNat)
  | item => item.list? value?

/-- The value that an item holds unless it is nil. -/
def option? {α : Type} (value? : Item → Option α) : Item → Option (Option α)
  | .nil => some none
  | item => (value? item).map some

/-- The place of a name in a list of names. -/
def namePlace? (names : List String) (name : Bytes) : Option Nat :=
  names.findIdx? fun candidate => Bytes.ofText candidate == name

/-- The place of the field that a key of a map names, `none` inside if it names no known field;
nothing at all if it is no key for a field. -/
def fieldPlace? (names : List String) : Item → Option (Option Nat)
  | .unsigned value => some (if value < names.length then some value else none)
  | item => item.bytes?.map (namePlace? names)

/-- The fields of a map, put over the fields `found` so far; a field may not come twice. -/
def mapFields? (names : List String) (found : List (Option Item)) :
    List Item → Option (List (Option Item))
  | [] => some found
  | [_] => none
  | key :: value :: rest => do
    match ← fieldPlace? names key with
    | none => mapFields? names found rest
    | some place =>
      if (found[place]?.getD none).isSome then none
      else mapFields? names (found.set place (some value)) rest

/-- The fields of a record with the given field names; a map may leave some of them out. -/
def fields? (names : List String) : Item → Option (List (Option Item))
  | .array items => if items.length = names.length then some (items.map some) else none
  | .map items => mapFields? names (names.map fun _ => none) items
  | _ => none

/-- The value of a field that a record must have. -/
def required? {α : Type} (value? : Item → Option α) (field : Option Item) : Option α :=
  field.bind value?

/-- The value of a field that a record may leave out. -/
def optional? {α : Type} (value? : Item → Option α) : Option Item → Option (Option α)
  | none => some none
  | some item => option? value? item

/-- The place of the choice that an item names. -/
def choicePlace? (names : List String) : Item → Option Nat
  | .unsigned value => if value < names.length then some value else none
  | item => item.bytes?.bind (namePlace? names)

/-- The choice that an item names, by its name, by its number, or as the only key of a map. -/
def choice? {α : Type} (choices : List α) (name : α → String) (item : Item) : Option α :=
  let place? := match item with
    | .map [key, .nil] => choicePlace? (choices.map name) key
    | item => choicePlace? (choices.map name) item
  place?.bind fun place => choices[place]?

end Item

/-! ## Records -/

/-- A kind of record with a form as an item. -/
class Storable (α : Type) where
  /-- The item for a record. -/
  toItem : α → Item
  /-- The record that an item holds. -/
  ofItem? : Item → Option α
  /-- What the record is called where one cannot be read. -/
  kind : String

/-- The stored form of a record. -/
def encode {α : Type} [Storable α] (record : α) : Bytes :=
  (Storable.toItem record).write

/-- The record at the beginning of a byte string. -/
def decode? {α : Type} [Storable α] (bytes : Bytes) : Option α := do
  let (item, _) ← Item.read maxDepth bytes
  Storable.ofItem? item

/-- The record at the beginning of a byte string, or the report that there is none. -/
def decode {α : Type} [Storable α] (bytes : Bytes) : Except IndexError α :=
  match decode? bytes with
  | some record => .ok record
  | none => .error (.malformedRecord ("no " ++ Storable.kind α))

end Proximity.MessagePack
