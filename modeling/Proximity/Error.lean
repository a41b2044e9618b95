import Proximity.Identifier
import Proximity.Embedding.Precision

set_option autoImplicit false
set_option relaxedAutoImplicit false

/-!
# Errors

Every operation that can fail answers the cause of its failure. The page store has causes of its
own, the vector index adds those of its fields, inputs and queries, and both have a wording.

## Main definitions

* `Proximity.StoreError` — why the page store refuses an operation.
* `Proximity.Inconsistency` — what makes the stored records of a field contradict each other.
* `Proximity.IndexError` — why the vector index refuses an operation.
* `Proximity.ErrorClass`, `Proximity.IndexError.errorClass` — how a caller should react.
* `Proximity.IndexError.rootCause` — the failure that a failed registration wraps.
-/

namespace Proximity

/-! ## The page store -/

/-- Why the page store refuses an operation. -/
inductive StoreError
  /-- No run starts at the page. -/
  | pageNotFound (page : PageId)
  /-- New contents do not have the length of the run that they are to replace. -/
  | runLength (page : PageId) (expected got : Nat)
  /-- Another write transaction is open. -/
  | writerBusy
  /-- The caller asked for something that has no meaning. -/
  | invalidInput (message : String)
  /-- The stored data, or the system, is not as it should be. -/
  | internal (message : String)
deriving DecidableEq

namespace StoreError

/-- The wording of a store error. -/
def message : StoreError → String
  | pageNotFound page => "Page not found: " ++ toString page.number
  | runLength page expected got =>
    "Page run " ++ toString page.number ++ " holds " ++ toString expected ++ " bytes, got "
      ++ toString got
  | writerBusy => "A write transaction is already active"
  | invalidInput message => "Invalid input: " ++ message
  | internal message => "Internal error: " ++ message

end StoreError

/-! ## Contradictions between records -/

/-- What makes the stored records of a field contradict each other. -/
inductive Inconsistency
  /-- A neighbor list or the header names a vector that has no node. -/
  | missingNode (id : VectorId)
  /-- A node or the header names a container that has no record. -/
  | missingContainer (page : PageId)
  /-- A node lies in a slot that its container does not list. -/
  | vacantSlot (slot : UInt8) (page : PageId)
  /-- A container is to take a vector but has no free slot. -/
  | fullContainer (page : PageId) (slots : Nat)
  /-- Every node of a layer that can be reached has its full number of tree edges. -/
  | saturatedLayer (layer : Nat)
  /-- A vector is looked up in a field whose header gives no vector length. -/
  | unknownLayout
  /-- The key of a container record does not end in a page number. -/
  | malformedContainerKey

namespace Inconsistency

/-- The wording of a contradiction. -/
def message : Inconsistency → String
  | missingNode id => "graph references missing node " ++ toString id.raw
  | missingContainer page => "missing record for container " ++ toString page.number
  | vacantSlot slot page =>
    "slot " ++ toString slot ++ " of container " ++ toString page.number ++ " is not occupied"
  | fullContainer page slots =>
    "container " ++ toString page.number ++ " is full (" ++ toString slots ++ " slots)"
  | saturatedLayer layer => "no node on layer " ++ toString layer ++ " can take a tree edge"
  | unknownLayout => "graph has no container layout yet"
  | malformedContainerKey => "malformed container key"

end Inconsistency

/-! ## The vector index -/

/-- Why the vector index refuses an operation. -/
inductive IndexError
  /-- A field of that name exists. -/
  | fieldExists (name : String)
  /-- No field of that name exists. -/
  | fieldNotFound (name : String)
  /-- The vector does not have the length of the vectors in the field. -/
  | dimensionMismatch (expected got : Nat)
  /-- A field name, field options or a configuration are refused. -/
  | invalidOptions (reason : String)
  /-- The number cannot name a vector. -/
  | invalidId (id : UInt64)
  /-- The field holds a vector of that name. -/
  | duplicate (id : UInt64)
  /-- There is no conversion between the two precisions. -/
  | unsupportedEncoding (source destination : Precision)
  /-- The bytes, or the text, are no vector. -/
  | corruptInput (reason : String)
  /-- Inserting the vector failed after it had begun. -/
  | registrationFailed (id : UInt64) (cause : IndexError)
  /-- An earlier insertion of the same session failed. -/
  | registrationAborted (id : UInt64) (reason : String)
  /-- The query vector cannot be compared with the vectors of the field. -/
  | invalidQuery (reason : String)
  /-- The page store refused. -/
  | storage (cause : StoreError)
  /-- A stored record cannot be read. -/
  | malformedRecord (detail : String)
  /-- A slot does not lie within the page run of its container. -/
  | slotOutsideRun (page : PageId) (slot : Nat)
  /-- There cannot be room for so many candidates. -/
  | roomOverflow (candidates : Nat)
deriving DecidableEq

/-- How a caller should react to an error. -/
inductive ErrorClass
  /-- A definition or a length is wrong, and trying again will not help. -/
  | configuration
  /-- One input is wrong and can be left out. -/
  | encoding
  /-- The whole registration session is lost. -/
  | registration
  /-- The query is wrong. -/
  | search
  /-- The store failed or is damaged. -/
  | storage
deriving DecidableEq

namespace IndexError

/-- The error that reports a contradiction between records. -/
def inconsistent (problem : Inconsistency) : IndexError :=
  storage (.internal problem.message)

/-- The wording of an error. -/
def message : IndexError → String
  | fieldExists name => "Vector field already exists: " ++ name
  | fieldNotFound name => "Vector field not found: " ++ name
  | dimensionMismatch expected got =>
    "Dimension mismatch: expected " ++ toString expected ++ " bytes, got " ++ toString got
  | invalidOptions reason => "Invalid options: " ++ reason
  | invalidId id => "Invalid vector id: " ++ toString id
  | duplicate id => "Vector " ++ toString id ++ " is already registered"
  | unsupportedEncoding source destination =>
    "Cannot encode " ++ source.name ++ " vectors as " ++ destination.name
  | corruptInput reason => "Corrupt vector input: " ++ reason
  | registrationFailed id cause =>
    "Registration of vector " ++ toString id ++ " failed: " ++ cause.message
  | registrationAborted id reason =>
    "Registration aborted after vector " ++ toString id ++ " failed: " ++ reason
  | invalidQuery reason => "Invalid query: " ++ reason
  | storage cause => "Storage error: " ++ cause.message
  | malformedRecord detail => "Serialization error: " ++ detail
  | slotOutsideRun page slot =>
    "Slot " ++ toString slot ++ " of container " ++ toString page.number ++ " lies outside its run"
  | roomOverflow candidates => "No room for " ++ toString candidates ++ " candidates"

/-- How a caller should react to this error. -/
def errorClass : IndexError → ErrorClass
  | fieldExists _ | fieldNotFound _ | dimensionMismatch _ _ | invalidOptions _ | invalidId _
  | duplicate _ => .configuration
  | unsupportedEncoding _ _ | corruptInput _ => .encoding
  | registrationFailed _ _ | registrationAborted _ _ => .registration
  | invalidQuery _ => .search
  | storage _ | malformedRecord _ | slotOutsideRun _ _ | roomOverflow _ => .storage

/-- Whether the error says that a field does not exist. -/
def isNotFound : IndexError → Bool
  | fieldNotFound _ => true
  | _ => false

/-- The failure at the bottom of failed registrations. -/
def rootCause : IndexError → IndexError
  | registrationFailed _ cause => cause.rootCause
  | error => error

end IndexError

end Proximity
