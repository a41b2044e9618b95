import Proximity.Field.Key
import Proximity.Field.Name
import Proximity.Field.Record
import Proximity.Store.WriteTransaction

set_option autoImplicit false
set_option relaxedAutoImplicit false

/-!
# The field catalog

The catalog is the set of field definitions that a transaction sees. Fields are only ever added.

## Main definitions

* `Proximity.Catalog.create` — defines a new field.
* `Proximity.Catalog.find` — the definition of a field.
* `Proximity.Catalog.names` — the names of all fields.
-/

namespace Proximity.Catalog

open MessagePack

/-- Defines a new field. The name and the options are checked before the catalog is asked. -/
def create (txn : WriteTransaction) (name : String) (options : FieldOptions) :
    Except IndexError (FieldRecord × WriteTransaction) := do
  FieldName.validate name
  options.validate
  let key := (RecordKey.field name).bytes
  if (txn.get? key).isSome then throw (.fieldExists name)
  let record : FieldRecord := { name, options, createdVersion := txn.version }
  return (record, txn.put key (encode record))

/-- The definition of a field. -/
def find (view : Snapshot) (name : String) : Except IndexError FieldRecord :=
  match view.get? (RecordKey.field name).bytes with
  | some stored => decode stored
  | none => .error (.fieldNotFound name)

/-- The names of all fields, in byte order. -/
def names (view : Snapshot) : List String :=
  (view.scan RecordKey.fieldStem).filterMap fun entry => RecordKey.fieldName? entry.1

end Proximity.Catalog
