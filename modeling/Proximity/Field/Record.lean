import Proximity.Embedding.Options
import Proximity.MessagePack.Storable

set_option autoImplicit false
set_option relaxedAutoImplicit false

/-!
# Field definitions

The definition of a field is written once, when the field is created.

## Main definitions

* `Proximity.FieldRecord` — the definition of a field, and its stored form.
-/

namespace Proximity

open MessagePack

/-- The definition of a field. -/
structure FieldRecord where
  /-- The name of the field. -/
  name : String
  /-- The options that were fixed when the field was created. -/
  options : FieldOptions
  /-- The version that the creating transaction read from. -/
  createdVersion : Nat
deriving DecidableEq

namespace FieldOptions

/-- The item for field options. -/
def toItem (options : FieldOptions) : Item :=
  .array [.ofNat options.edges, .ofNat options.candidates, .ofText options.source.name,
    .ofText options.destination.name, .ofText options.metric.name, .ofNat options.vectorBytes]

/-- The names of the options in a map. -/
def fieldNames : List String :=
  ["number_of_edges", "number_of_candidates", "source", "destination", "metric",
    "vector_byte_size"]

/-- The field options that an item holds. -/
def ofItem? (item : Item) : Option FieldOptions := do
  match ← item.fields? fieldNames with
  | [edges, candidates, source, destination, metric, vectorBytes] =>
    let edges ← Item.required? (Item.nat? UInt64.size) edges
    let candidates ← Item.required? (Item.nat? UInt64.size) candidates
    let source ← Item.required? (Item.choice? Precision.all Precision.name) source
    let destination ← Item.required? (Item.choice? Precision.all Precision.name) destination
    let metric ← Item.required? (Item.choice? Metric.all Metric.name) metric
    let vectorBytes ← Item.required? (Item.nat? UInt64.size) vectorBytes
    return { edges, candidates, source, destination, metric, vectorBytes }
  | _ => none

end FieldOptions

namespace FieldRecord

/-- The item for a field definition. -/
def toItem (record : FieldRecord) : Item :=
  .array [.ofText record.name, record.options.toItem, .ofNat record.createdVersion]

/-- The names of the parts of a field definition in a map. -/
def fieldNames : List String :=
  ["name", "options", "created_version"]

/-- The field definition that an item holds. -/
def ofItem? (item : Item) : Option FieldRecord := do
  match ← item.fields? fieldNames with
  | [name, options, createdVersion] =>
    let name ← Item.required? Item.text? name
    let options ← Item.required? FieldOptions.ofItem? options
    let createdVersion ← Item.required? (Item.nat? UInt64.size) createdVersion
    return { name, options, createdVersion }
  | _ => none

/-- A field definition is stored as its item. -/
instance : Storable FieldRecord where
  toItem := toItem
  ofItem? := ofItem?
  kind := "field definition"

end FieldRecord

end Proximity
